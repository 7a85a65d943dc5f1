import PyFly.Library.InsertionDict

/-!
# Values as XML

A list becomes repeated siblings, and siblings with one tag are collected into
a list again.  A list of less than two values, an empty dict and an empty text
would be lost; what is left comes back as it was.
-/

namespace PyFly.Web

open Library List

/-- What is converted: a model stands with its `model_dump(mode="json")`, a
value of another type with its `str`. -/
inductive XmlValue
  | none
  | text (text : List Char)
  | dict (items : List (List Char × XmlValue))
  | list (items : List XmlValue)
  | model (dump : XmlValue)
  | primitive (str : List Char)

/-- An `ET.Element` without attributes. -/
inductive Element
  | node (tag : List Char) (text : Option (List Char)) (children : List Element)

namespace Element

def tag : Element → List Char
  | node tag _ _ => tag

def extend (parent : Element) (children : List Element) : Element :=
  match parent with
  | node tag text old => node tag text (old ++ children)

end Element

mutual

def buildElement (parent : Element) (key : List Char) : XmlValue → Element
  | .model dump => buildElement parent key dump
  | .dict items => parent.extend [buildItems (.node key none []) items]
  | .list items => buildList parent key items
  | .none => parent.extend [.node key none []]
  | .text text => parent.extend [.node key (some text) []]
  | .primitive str => parent.extend [.node key (some str) []]

def buildItems (child : Element) : List (List Char × XmlValue) → Element
  | [] => child
  | (key, value) :: items => buildItems (buildElement child key value) items

def buildList (parent : Element) (key : List Char) : List XmlValue → Element
  | [] => parent
  | item :: items => buildList (buildElement parent key item) key items

end

def rootOf (rootTag : List Char) : XmlValue → Element
  | .dict items => buildItems (.node rootTag none []) items
  | .list items => buildList (.node rootTag none []) "item".toList items
  | .none => .node rootTag (some "None".toList) []
  | .text text => .node rootTag (some text) []
  | .primitive str => .node rootTag (some str) []
  | .model dump => rootOf rootTag dump

def dictToXml (tostring : Element → List Char) (data : XmlValue)
    (rootTag : List Char) : List Char :=
  tostring (rootOf rootTag data)

/-- The loop body of `_element_to_dict`. -/
def insertChild (result : Dict (List Char) XmlValue) (tag : List Char)
    (value : XmlValue) : Dict (List Char) XmlValue :=
  match result.get? tag with
  | some (.list existing) => result.set tag (.list (existing ++ [value]))
  | some existing => result.set tag (.list [existing, value])
  | none => result.set tag value

mutual

def elementToDict : Element → XmlValue
  | .node _ text [] => text.elim .none .text
  | .node _ _ (child :: children) =>
    .dict (collectChildren (insertChild .empty child.tag (elementToDict child)) children).items

def collectChildren (result : Dict (List Char) XmlValue) :
    List Element → Dict (List Char) XmlValue
  | [] => result
  | child :: children =>
    collectChildren (insertChild result child.tag (elementToDict child)) children

end

def xmlToDict {E : Type} (fromstring : List Char → Except E Element)
    (xmlString : List Char) : Except E XmlValue :=
  (fromstring xmlString).map fun root => .dict [(root.tag, elementToDict root)]

/-! ## Values that come back -/

inductive Plain : Bool → XmlValue → Prop
  | none (inDict : Bool) : Plain inDict .none
  | text (inDict : Bool) {text : List Char} (h : text ≠ []) : Plain inDict (.text text)
  | dict (inDict : Bool) {items : List (List Char × XmlValue)}
    (hne : items ≠ []) (hnodup : (items.map Prod.fst).Nodup)
    (hitems : ∀ item ∈ items, Plain true item.2) : Plain inDict (.dict items)
  | list {items : List XmlValue} (hlength : 2 ≤ items.length)
    (hitems : ∀ item ∈ items, Plain false item) : Plain true (.list items)

def XmlValue.siblings : XmlValue → List XmlValue
  | .list items => items
  | value => [value]

namespace Element

theorem extend_nil (parent : Element) : parent.extend [] = parent := by
  cases parent
  simp [extend]

theorem extend_extend (parent : Element) (first second : List Element) :
    (parent.extend first).extend second = parent.extend (first ++ second) := by
  cases parent
  simp [extend]

end Element

/-! ## Siblings -/

structure Becomes (key : List Char) (value : XmlValue)
    (children : List Element) : Prop where
  built : ∀ parent, buildElement parent key value = parent.extend children
  tags : ∀ child ∈ children, child.tag = key
  values : children.map elementToDict = value.siblings

variable {key : List Char} {value existing : XmlValue}
  {values : List XmlValue} {items : List (List Char × XmlValue)}
  {children rest : List Element} {result : Dict (List Char) XmlValue}

theorem Plain.siblings (h : Plain false value) : value.siblings = [value] := by
  cases h <;> rfl

theorem Plain.siblings_ne_nil (h : Plain true value) : value.siblings ≠ [] := by
  cases h with
  | list hlength =>
    intro hnil
    simp [XmlValue.siblings] at hnil
    simp [hnil] at hlength
  | none | text | dict => simp [XmlValue.siblings]

theorem Becomes.list (h : ∀ value ∈ values, Plain false value ∧
      ∃ children, Becomes key value children) :
    ∃ children, Becomes key (.list values) children := by
  induction values with
  | nil =>
    refine ⟨[], ?_, by simp, rfl⟩
    intro parent
    rw [buildElement, buildList, Element.extend_nil]
  | cons value values ih =>
    obtain ⟨hplain, first, hfirst⟩ := h value mem_cons_self
    obtain ⟨rest, hrest⟩ := ih fun value hvalue =>
      h value (mem_cons_of_mem _ hvalue)
    refine ⟨first ++ rest, ?_, ?_, ?_⟩
    · intro parent
      have hbuilt := hrest.built (parent.extend first)
      rw [buildElement] at hbuilt ⊢
      rw [buildList, hfirst.built, hbuilt, Element.extend_extend]
    · intro child hchild
      exact (mem_append.mp hchild).elim (hfirst.tags child) (hrest.tags child)
    · rw [map_append, hfirst.values, hplain.siblings, hrest.values]
      rfl

theorem insertChild_fresh (hfresh : key ∉ result.keys) :
    insertChild result key value = result.set key value := by
  rw [insertChild, Dict.get?_eq_none_iff.mpr hfresh]

theorem insertChild_list : insertChild (result.set key (.list values)) key value =
      result.set key (.list (values ++ [value])) := by
  rw [insertChild, Dict.get?_set_self]
  exact Dict.set_set result key _ _

theorem insertChild_single (h : Plain false existing) :
    insertChild (result.set key existing) key value =
      result.set key (.list [existing, value]) := by
  rw [insertChild, Dict.get?_set_self]
  cases h <;> exact Dict.set_set result key _ _

theorem collectChildren_list (htags : ∀ child ∈ children, child.tag = key) :
    collectChildren (result.set key (.list values)) (children ++ rest) =
      collectChildren (result.set key (.list (values ++ children.map elementToDict))) rest := by
  induction children generalizing values with
  | nil => simp
  | cons child children ih =>
    rw [cons_append, collectChildren, htags child mem_cons_self,
      insertChild_list, ih fun child hchild =>
        htags child (mem_cons_of_mem _ hchild)]
    simp

theorem Becomes.collectChildren (h : Becomes key value children)
    (hplain : Plain true value) (hfresh : key ∉ result.keys) :
    collectChildren result (children ++ rest) =
      collectChildren (result.set key value) rest := by
  obtain ⟨-, htags, hvalues⟩ := h
  have single : value.siblings = [value] → Web.collectChildren result (children ++ rest) =
        Web.collectChildren (result.set key value) rest := by
    intro hone
    rw [hone] at hvalues
    obtain ⟨child, rfl, hchild⟩ := map_eq_singleton_iff.mp hvalues
    rw [singleton_append, Web.collectChildren,
      htags child mem_cons_self, insertChild_fresh hfresh, hchild]
  cases hplain with
  | none | text | dict => exact single rfl
  | @list values hlength hitems =>
    match values, hlength with
    | first :: second :: values, _ =>
      obtain ⟨one, children, rfl, hone, hvalues⟩ :=
        map_eq_cons_iff.mp hvalues
      obtain ⟨two, children, rfl, htwo, hvalues⟩ :=
        map_eq_cons_iff.mp hvalues
      have hfirst := hitems first mem_cons_self
      rw [cons_append, cons_append, Web.collectChildren,
        Web.collectChildren, htags one (by simp), htags two (by simp),
        insertChild_fresh hfresh, hone, insertChild_single hfirst, htwo,
        collectChildren_list fun child hchild =>
          htags child (by simp [hchild]),
        hvalues]
      rfl

/-! ## Dicts -/

theorem exists_buildItems (h : ∀ item ∈ items, Plain true item.2 ∧
      ∃ children, Becomes item.1 item.2 children) :
    ∃ children, (∀ parent, buildItems parent items = parent.extend children) ∧
      (items ≠ [] → children ≠ []) ∧
      ∀ result : Dict (List Char) XmlValue, (items.map Prod.fst).Nodup →
        (∀ item ∈ items, item.1 ∉ result.keys) →
        (collectChildren result children).items = result.items ++ items := by
  induction items with
  | nil =>
    refine ⟨[], fun parent => ?_, fun hne => absurd rfl hne, fun result _ _ => ?_⟩
    · rw [buildItems, Element.extend_nil]
    · rw [collectChildren, append_nil]
  | cons item items ih =>
    obtain ⟨key, value⟩ := item
    obtain ⟨hplain, first, hfirst⟩ := h (key, value) mem_cons_self
    obtain ⟨rest, hbuilt, -, hcollect⟩ := ih fun item hitem =>
      h item (mem_cons_of_mem _ hitem)
    refine ⟨first ++ rest, fun parent => ?_, fun _ hnil => ?_, fun result hnodup hfresh => ?_⟩
    · rw [buildItems, hfirst.built, hbuilt, Element.extend_extend]
    · have hvalues := hfirst.values
      rw [(append_eq_nil_iff.mp hnil).1] at hvalues
      exact hplain.siblings_ne_nil hvalues.symm
    · obtain ⟨hkey, hnodup⟩ := nodup_cons.mp hnodup
      have hnew := hfresh (key, value) mem_cons_self
      rw [hfirst.collectChildren hplain hnew, hcollect _ hnodup,
        Dict.items_set_of_notMem hnew, append_assoc]
      · rfl
      · intro item hitem hmem
        rcases Dict.mem_keys_set.mp hmem with hsame | hold
        · exact hkey (hsame ▸ mem_map_of_mem hitem)
        · exact hfresh item (mem_cons_of_mem _ hitem) hold

theorem elementToDict_of_ne_nil {tag : List Char} {text : Option (List Char)}
    (h : children ≠ []) :
    elementToDict (.node tag text children) =
      .dict (collectChildren .empty children).items := by
  cases children with
  | nil => exact absurd rfl h
  | cons child children => rw [elementToDict, collectChildren]

theorem elementToDict_buildItems {tag : List Char}
    (hne : items ≠ []) (hnodup : (items.map Prod.fst).Nodup)
    (h : ∀ item ∈ items, Plain true item.2 ∧ ∃ children, Becomes item.1 item.2 children) :
    elementToDict (buildItems (.node tag none []) items) = .dict items := by
  obtain ⟨children, hbuilt, hchildren, hcollect⟩ := exists_buildItems h
  rw [hbuilt, Element.extend, nil_append,
    elementToDict_of_ne_nil (hchildren hne), hcollect .empty hnodup (by simp)]
  rfl

theorem Plain.exists_becomes {inDict : Bool} (h : Plain inDict value)
    (key : List Char) : ∃ children, Becomes key value children := by
  induction h generalizing key with
  | none =>
    exact ⟨[.node key .none []], fun parent => rfl, by simp [Element.tag], rfl⟩
  | @text _ text _ =>
    exact ⟨[.node key (some text) []], fun parent => rfl, by simp [Element.tag], rfl⟩
  | @dict _ items hne hnodup hitems ih =>
    have hall : ∀ item ∈ items, Plain true item.2 ∧
        ∃ children, Becomes item.1 item.2 children := by
      intro item hitem
      exact ⟨hitems item hitem, ih item hitem item.1⟩
    obtain ⟨children, hbuilt, -⟩ := exists_buildItems hall
    refine ⟨[buildItems (.node key .none []) items], fun parent => ?_, ?_, ?_⟩
    · rw [buildElement]
    · simp [hbuilt, Element.extend, Element.tag]
    · simp only [map_cons, map_nil, XmlValue.siblings]
      rw [elementToDict_buildItems hne hnodup hall]
  | list _ hitems ih =>
    exact Becomes.list fun value hvalue =>
      ⟨hitems value hvalue, ih value hvalue key⟩

/-- What is converted comes back under the name of the root. -/
theorem xmlToDict_dictToXml {E : Type} (tostring : Element → List Char)
    (fromstring : List Char → Except E Element) (root : List Char)
    (items : List (List Char × XmlValue)) (h : Plain false (.dict items))
    (hfaithful : fromstring (tostring (rootOf root (.dict items))) =
      .ok (rootOf root (.dict items))) :
    xmlToDict fromstring (dictToXml tostring (.dict items) root) =
      .ok (.dict [(root, .dict items)]) := by
  cases h with
  | dict _ hne hnodup hitems =>
    have hall : ∀ item ∈ items, Plain true item.2 ∧
        ∃ children, Becomes item.1 item.2 children := by
      intro item hitem
      exact ⟨hitems item hitem, (hitems item hitem).exists_becomes item.1⟩
    obtain ⟨children, hbuilt, -⟩ := exists_buildItems hall
    have htag : (rootOf root (.dict items)).tag = root := by
      simp [rootOf, hbuilt, Element.extend, Element.tag]
    have hvalue : elementToDict (rootOf root (.dict items)) = .dict items :=
      elementToDict_buildItems hne hnodup hall
    rw [xmlToDict, dictToXml, hfaithful, Except.map, htag, hvalue]

def order : List (List Char × XmlValue) :=
  [("item".toList, .list [.text "tea".toList, .none]),
    ("to".toList, .dict [("city".toList, .text "Oslo".toList)])]

theorem xmlToDict_dictToXml_order : xmlToDict
        (fun _ => (.ok (rootOf "order".toList (.dict order)) : Except Unit Element))
        (dictToXml (fun _ =>
          ("<?xml version='1.0' encoding='utf-8'?>\n<order><item>tea</item>" ++
            "<item /><to><city>Oslo</city></to></order>").toList)
          (.dict order) "order".toList) =
      .ok (.dict [("order".toList, .dict order)]) := by
  apply xmlToDict_dictToXml
  · refine .dict _ (by simp [order]) (by simp [order]) ?_
    simp only [order, forall_mem_cons]
    refine ⟨.list (by simp) ?_, .dict _ (by simp) (by simp) ?_, by simp⟩
    · simpa using ⟨.text _ (by simp), .none _⟩
    · simpa using .text _ (by simp)
  · rfl

end PyFly.Web
