import Mathlib.Data.List.Basic
import Mathlib.Data.Option.Basic
import Mathlib.Data.Sum.Basic
import PyFly.Library.TextReplacement

/-!
# Placeholders

A placeholder is a name between an opening and a closing symbol.  A template
is read once into the places of its placeholders and what stands between them;
values put into these places are not read again.  Replacing one placeholder in
the text does the same exactly when the text between the places shows none.
-/

namespace PyFly.Library

open List

variable {α κ : Type}

theorem infix_append_iff_of_notMem {first : α} {rest front back : List α} (h : first ∉ front) :
    first :: rest <:+: front ++ back ↔ first :: rest <:+: back := by
  induction front with
  | nil => rfl
  | cons c front ih =>
    have hc : first ≠ c := ne_of_not_mem_cons h
    rw [cons_append, infix_cons_iff, ih (not_mem_of_not_mem_cons h), cons_prefix_cons]
    simp [hc]

theorem eq_of_append_cons {a : α} {x y z w : List α} (hx : a ∉ x)
    (hy : a ∉ y) (h : x ++ a :: z = y ++ a :: w) : x = y := by
  induction x generalizing y with
  | nil =>
    cases y with
    | nil => rfl
    | cons c y =>
      exact absurd (List.cons.inj h).1 (ne_of_not_mem_cons hy)
  | cons b x ih =>
    cases y with
    | nil =>
      exact absurd (List.cons.inj h).1.symm (ne_of_not_mem_cons hx)
    | cons c y =>
      obtain ⟨rfl, htail⟩ := List.cons.inj h
      rw [ih (not_mem_of_not_mem_cons hx) (not_mem_of_not_mem_cons hy) htail]

structure Placeholders (α κ : Type) where
  opening : α
  closing : α
  name : κ → List α
  opening_ne_closing : opening ≠ closing
  name_injective : Function.Injective name
  opening_notMem : ∀ k, opening ∉ name k
  closing_notMem : ∀ k, closing ∉ name k

def putIn (value : κ → Option (List α)) (template : List (α ⊕ κ)) : List (α ⊕ κ) :=
  template.flatMap (Sum.elim (fun c => [.inl c])
    fun k => (value k).elim [.inr k] fun word => word.map .inl)

@[simp] theorem putIn_nil (value : κ → Option (List α)) :
    putIn value [] = [] := rfl

@[simp] theorem putIn_inl (value : κ → Option (List α)) (c : α)
    (template : List (α ⊕ κ)) :
    putIn value (.inl c :: template) = .inl c :: putIn value template := rfl

theorem putIn_inr (value : κ → Option (List α)) (k : κ) (template : List (α ⊕ κ)) :
    putIn value (.inr k :: template) =
      ((value k).elim [.inr k] fun word => word.map .inl) ++ putIn value template := rfl

theorem putIn_append (value : κ → Option (List α)) (front back : List (α ⊕ κ)) :
    putIn value (front ++ back) = putIn value front ++ putIn value back :=
  flatMap_append

@[simp] theorem putIn_map_inl (value : κ → Option (List α)) (word : List α) :
    putIn value (word.map .inl) = word.map .inl := by
  induction word with
  | nil => rfl
  | cons c word ih => rw [map_cons, putIn_inl, ih]

theorem putIn_none (template : List (α ⊕ κ)) : putIn (fun _ => none) template = template := by
  induction template with
  | nil => rfl
  | cons place template ih =>
    cases place with
    | inl c => rw [putIn_inl, ih]
    | inr k => exact congrArg (.inr k :: ·) ih

theorem putIn_congr {value other : κ → Option (List α)} {template : List (α ⊕ κ)}
    (h : ∀ k, .inr k ∈ template → value k = other k) :
    putIn value template = putIn other template := by
  induction template with
  | nil => rfl
  | cons place template ih =>
    have htail := ih fun k hk => h k (mem_cons_of_mem _ hk)
    cases place with
    | inl c => rw [putIn_inl, putIn_inl, htail]
    | inr k => rw [putIn_inr, putIn_inr, htail, h k mem_cons_self]

theorem inr_mem_putIn (value : κ → Option (List α)) (k : κ) (template : List (α ⊕ κ)) :
    .inr k ∈ putIn value template ↔ .inr k ∈ template ∧ value k = none := by
  induction template with
  | nil => simp
  | cons place template ih =>
    cases place with
    | inl c => simp [ih]
    | inr j =>
      rw [putIn_inr, mem_append, ih, mem_cons]
      cases hvalue : value j with
      | none =>
        by_cases hj : k = j
        · subst hj
          simp [hvalue]
        · simp [hj]
      | some word =>
        by_cases hj : k = j
        · subst hj
          simp [hvalue]
        · simp [hj]

theorem putIn_putIn (value other : κ → Option (List α)) (template : List (α ⊕ κ)) :
    putIn other (putIn value template) = putIn (fun k => (value k).or (other k)) template := by
  induction template with
  | nil => rfl
  | cons place template ih =>
    cases place with
    | inl c => rw [putIn_inl, putIn_inl, ih, putIn_inl]
    | inr k =>
      rw [putIn_inr, putIn_append, ih, putIn_inr]
      cases value k with
      | none => exact congrArg (· ++ _) (append_nil _)
      | some word => exact congrArg (· ++ _) (putIn_map_inl other word)

theorem putIn_map {ι : Type} (value : ι → Option (List α)) (f : κ → ι)
    (template : List (α ⊕ κ)) :
    putIn value (template.map (Sum.map id f)) =
      (putIn (fun k => value (f k)) template).map (Sum.map id f) := by
  induction template with
  | nil => rfl
  | cons place template ih =>
    cases place with
    | inl c => exact congrArg (.inl c :: ·) ih
    | inr k =>
      rw [map_cons, Sum.map_inr, putIn_inr, ih, putIn_inr, map_append]
      cases value (f k) with
      | none => rfl
      | some word => simp [Function.comp_def]

theorem map_inl_infix_map_iff {ι : Type} {f : κ → ι}
    (hf : Function.Injective f) (word : List α) (template : List (α ⊕ κ)) :
    word.map .inl <:+: template.map (Sum.map id f) ↔ word.map .inl <:+: template := by
  constructor
  · intro h
    obtain ⟨front, hfront, hword⟩ := infix_map_iff.mp h
    have hsame : front = word.map .inl := by
      have hinjective : Function.Injective (Sum.map (id : α → α) f) :=
        Function.injective_id.sumMap hf
      apply hinjective.list_map
      rw [← hword, map_map]
      rfl
    rwa [← hsame]
  · intro h
    have hmap := h.map (Sum.map (id : α → α) f)
    rwa [map_map] at hmap

namespace Placeholders

variable (holders : Placeholders α κ)

def token (k : κ) : List α :=
  holders.opening :: (holders.name k ++ [holders.closing])

theorem opening_notMem_rest (k : κ) :
    holders.opening ∉ holders.name k ++ [holders.closing] := by
  intro h
  rcases mem_append.mp h with h | h
  · exact holders.opening_notMem k h
  · exact holders.opening_ne_closing (mem_singleton.mp h)

theorem solid_token (k : κ) : Solid (holders.token k) :=
  ⟨_, _, rfl, holders.opening_notMem_rest k⟩

variable {k j : κ}

theorem eq_of_token_prefix {β : Type} {f : α → β} (hf : Function.Injective f) {back : List β}
    (h : (holders.token k).map f <+: (holders.token j).map f ++ back) :
    k = j := by
  have hclosing (i : κ) : f holders.closing ∉ (holders.name i).map f := by
    intro hmem
    exact holders.closing_notMem i ((mem_map_of_injective hf).mp hmem)
  obtain ⟨rest, hrest⟩ := h
  have hnames : (holders.name k).map f ++ f holders.closing :: rest =
      (holders.name j).map f ++ f holders.closing :: back := by
    simpa [token] using hrest
  have hsame := eq_of_append_cons (hclosing k) (hclosing j) hnames
  exact holders.name_injective (hf.list_map hsame)

theorem eq_of_token_prefix_append {text : List α}
    (h : holders.token j <+: holders.token k ++ text) : j = k := by
  have hmap : (holders.token j).map id <+: (holders.token k).map id ++ text := by
    rwa [map_id, map_id]
  exact holders.eq_of_token_prefix Function.injective_id hmap

theorem token_infix_token_append {β : Type} {f : α → β}
    (hf : Function.Injective f) (h : k ≠ j) (back : List β) :
    (holders.token k).map f <:+: (holders.token j).map f ++ back ↔
      (holders.token k).map f <:+: back := by
  have hnot : ¬ (holders.token k).map f <+: (holders.token j).map f ++ back :=
    fun hprefix => h (holders.eq_of_token_prefix hf hprefix)
  have hrest : f holders.opening ∉ (holders.name j ++ [holders.closing]).map f := by
    intro hmem
    exact holders.opening_notMem_rest j ((mem_map_of_injective hf).mp hmem)
  calc (holders.token k).map f <:+: (holders.token j).map f ++ back
    _ ↔ (holders.token k).map f <:+: (holders.name j ++ [holders.closing]).map f ++ back :=
      infix_cons_iff.trans (or_iff_right hnot)
    _ ↔ (holders.token k).map f <:+: back := infix_append_iff_of_notMem hrest

theorem token_infix_inr (k j : κ) (template : List (α ⊕ κ)) :
    (holders.token k).map Sum.inl <:+: .inr j :: template ↔
      (holders.token k).map Sum.inl <:+: template := by
  rw [infix_cons_iff, token, map_cons, cons_prefix_cons]
  simp

def text (template : List (α ⊕ κ)) : List α :=
  template.flatMap (Sum.elim (fun c => [c]) holders.token)

@[simp] theorem text_nil : holders.text [] = [] := rfl

@[simp] theorem text_inl (c : α) (template : List (α ⊕ κ)) :
    holders.text (.inl c :: template) = c :: holders.text template := rfl

@[simp] theorem text_inr (k : κ) (template : List (α ⊕ κ)) :
    holders.text (.inr k :: template) = holders.token k ++ holders.text template := rfl

@[simp] theorem text_append (front back : List (α ⊕ κ)) :
    holders.text (front ++ back) = holders.text front ++ holders.text back :=
  flatMap_append

@[simp] theorem text_map_inl (word : List α) :
    holders.text (word.map .inl) = word := by
  induction word with
  | nil => rfl
  | cons c word ih => rw [map_cons, text_inl, ih]

theorem text_putIn_some (value : κ → List α) (template : List (α ⊕ κ)) :
    holders.text (putIn (fun k => some (value k)) template) =
      template.flatMap (Sum.elim (fun c => [c]) value) := by
  induction template with
  | nil => rfl
  | cons place template ih =>
    cases place with
    | inl c => exact congrArg (c :: ·) ih
    | inr k =>
      rw [putIn_inr, text_append, ih, Option.elim_some, text_map_inl]
      rfl

section Counting

variable [DecidableEq α] {c : α}

theorem count_text_le (hc : ∀ k, c ∉ holders.token k) (value : κ → List α)
    (template : List (α ⊕ κ)) :
    (holders.text template).count c ≤
      (template.flatMap (Sum.elim (fun c => [c]) value)).count c := by
  induction template with
  | nil => exact Nat.le_refl _
  | cons place template ih =>
    cases place with
    | inl d =>
      rw [text_inl, flatMap_cons, Sum.elim_inl, singleton_append, count_cons, count_cons]
      omega
    | inr k =>
      rw [text_inr, flatMap_cons, Sum.elim_inr, count_append,
        count_append, count_eq_zero_of_not_mem (hc k)]
      omega

/-- An element which no placeholder has occurs more often exactly when a value
brings it. -/
theorem count_eq_iff (hc : ∀ k, c ∉ holders.token k) (value : κ → List α)
    (template : List (α ⊕ κ)) :
    (template.flatMap (Sum.elim (fun c => [c]) value)).count c =
        (holders.text template).count c ↔
      ∀ k, .inr k ∈ template → c ∉ value k := by
  induction template with
  | nil => simp
  | cons place template ih =>
    have hle := holders.count_text_le hc value template
    cases place with
    | inl d =>
      rw [text_inl, flatMap_cons, Sum.elim_inl, singleton_append,
        count_cons, count_cons, Nat.add_right_cancel_iff, ih]
      simp
    | inr j =>
      rw [text_inr, flatMap_cons, Sum.elim_inr, count_append,
        count_append, count_eq_zero_of_not_mem (hc j),
        Nat.zero_add]
      constructor
      · intro h k hk
        rcases mem_cons.mp hk with hk | hk
        · obtain rfl := Sum.inr.inj hk
          exact count_eq_zero.mp (by omega)
        · exact ih.mp (by omega) k hk
      · intro h
        have hj := count_eq_zero_of_not_mem (h j mem_cons_self)
        have htail := ih.mpr fun k hk => h k (mem_cons_of_mem _ hk)
        omega

end Counting

def replaceEach [DecidableEq α] (keys : List κ) (value : κ → List α) (text : List α) : List α :=
  keys.foldl (fun text k => replaceAll (holders.token k) (value k) text) text

theorem replaceEach_concat [DecidableEq α] (keys : List κ)
    (value : κ → List α) (k : κ) (text : List α) :
    holders.replaceEach (keys ++ [k]) value text = replaceAll (holders.token k) (value k)
        (holders.replaceEach keys value text) :=
  foldl_concat _ _ _ _

section Replacing

variable [DecidableEq κ]

def only (k : κ) (word : List α) (j : κ) : Option (List α) :=
  if j = k then some word else none

def slots (k : κ) (template : List (α ⊕ κ)) : List (Option α) :=
  template.flatMap (Sum.elim (fun c => [some c])
    fun j => if j = k then [none] else (holders.token j).map some)

theorem slots_inr_self (k : κ) (template : List (α ⊕ κ)) :
    holders.slots k (.inr k :: template) = none :: holders.slots k template := by
  simp [slots]

theorem slots_inr_of_ne {k j : κ} (h : j ≠ k) (template : List (α ⊕ κ)) :
    holders.slots k (.inr j :: template) =
      (holders.token j).map some ++ holders.slots k template := by
  simp [slots, h]

theorem fill_slots (k : κ) (word : List α) (template : List (α ⊕ κ)) :
    fill word (holders.slots k template) = holders.text (putIn (only k word) template) := by
  induction template with
  | nil => rfl
  | cons place template ih =>
    cases place with
    | inl c => exact congrArg (c :: ·) ih
    | inr j =>
      by_cases hj : j = k
      · subst hj
        rw [slots_inr_self, fill_none, ih, putIn_inr, only, if_pos rfl,
          Option.elim_some, text_append, text_map_inl]
      · rw [slots_inr_of_ne _ hj, fill_append, fill_map_some, ih, putIn_inr, only, if_neg hj]
        rfl

theorem putIn_only_token (k : κ) (template : List (α ⊕ κ)) :
    holders.text (putIn (only k (holders.token k)) template) = holders.text template := by
  induction template with
  | nil => rfl
  | cons place template ih =>
    cases place with
    | inl c => exact congrArg (c :: ·) ih
    | inr j =>
      rw [putIn_inr, text_append, ih]
      by_cases hj : j = k
      · subst hj
        rw [only, if_pos rfl, Option.elim_some, text_map_inl, text_inr]
      · rw [only, if_neg hj, Option.elim_none, text_inr, text_nil, append_nil, text_inr]

theorem map_prefix_slots_iff {word : List α} (hword : holders.opening ∉ word)
    (k : κ) (template : List (α ⊕ κ)) :
    word.map some <+: holders.slots k template ↔ word.map .inl <+: template := by
  induction word generalizing template with
  | nil => simp
  | cons c word ih =>
    have hc : holders.opening ≠ c := ne_of_not_mem_cons hword
    cases template with
    | nil => simp [slots]
    | cons place template =>
      cases place with
      | inl d =>
        show some c :: word.map some <+: some d :: holders.slots k template ↔ _
        rw [cons_prefix_cons, ih (not_mem_of_not_mem_cons hword), map_cons,
          cons_prefix_cons, Option.some.injEq,
          Sum.inl.injEq]
      | inr j =>
        have hright : ¬ (c :: word).map Sum.inl <+: (Sum.inr j :: template : List (α ⊕ κ)) := by
          intro h
          exact absurd (cons_prefix_cons.mp h).1 (by simp)
        refine iff_of_false ?_ hright
        by_cases hj : j = k
        · subst hj
          rw [slots_inr_self]
          intro h
          exact Option.some_ne_none c (cons_prefix_cons.mp h).1
        · rw [slots_inr_of_ne _ hj]
          intro h
          have hsame := (cons_prefix_cons.mp h).1
          exact hc (Option.some.inj hsame).symm

theorem token_prefix_slots_iff (k : κ) (c : α) (template : List (α ⊕ κ)) :
    (holders.token k).map some <+: some c :: holders.slots k template ↔
      (holders.token k).map .inl <+: .inl c :: template := by
  rw [token, map_cons, map_cons, cons_prefix_cons, cons_prefix_cons,
    holders.map_prefix_slots_iff (holders.opening_notMem_rest k),
    Option.some.injEq, Sum.inl.injEq]

theorem token_infix_slots_iff (k : κ) (template : List (α ⊕ κ)) :
    (holders.token k).map some <:+: holders.slots k template ↔
      (holders.token k).map .inl <:+: template := by
  induction template with
  | nil => simp [slots, token]
  | cons place template ih =>
    cases place with
    | inl c =>
      show _ <:+: some c :: holders.slots k template ↔ _
      rw [infix_cons_iff, infix_cons_iff, ih, token_prefix_slots_iff]
    | inr j =>
      rw [token_infix_inr, ← ih]
      by_cases hj : j = k
      · subst hj
        rw [slots_inr_self, infix_cons_iff, token, map_cons, cons_prefix_cons]
        simp
      · rw [slots_inr_of_ne _ hj]
        exact holders.token_infix_token_append (Option.some_injective _) (Ne.symm hj) _

theorem text_eq_fill (k : κ) (template : List (α ⊕ κ)) : holders.text template =
      fill (holders.token k) (holders.slots k template) := by
  rw [fill_slots, putIn_only_token]

theorem token_prefix_text_iff (k : κ) (c : α) (template : List (α ⊕ κ)) :
    holders.token k <+: c :: holders.text template ↔
      (holders.token k).map .inl <+: .inl c :: template := by
  rw [holders.text_eq_fill k, (holders.solid_token k).prefix_iff, token_prefix_slots_iff]

theorem token_infix_text_iff (k : κ) (template : List (α ⊕ κ)) :
    holders.token k <:+: holders.text template ↔
      (holders.token k).map .inl <:+: template ∨ .inr k ∈ template := by
  induction template with
  | nil => simp [token]
  | cons place template ih =>
    cases place with
    | inl c =>
      rw [text_inl, infix_cons_iff, ih, token_prefix_text_iff,
        infix_cons_iff, mem_cons, or_assoc]
      simp
    | inr j =>
      rw [token_infix_inr, text_inr, mem_cons]
      by_cases hj : k = j
      · subst hj
        exact iff_of_true (prefix_append _ _).isInfix (Or.inr (Or.inl rfl))
      · have hskip := holders.token_infix_token_append
          Function.injective_id hj (holders.text template)
        rw [map_id, map_id] at hskip
        rw [hskip, ih]
        simp [hj]

theorem replaceAll_text_iff [DecidableEq α] (k : κ) (word : List α) (template : List (α ⊕ κ)) :
    replaceAll (holders.token k) word (holders.text template) =
        holders.text (putIn (only k word) template) ↔
      word = holders.token k ∨ ¬ (holders.token k).map .inl <:+: template := by
  rw [holders.text_eq_fill k, ← fill_slots,
    replaceAll_fill_iff (holders.solid_token k), token_infix_slots_iff]
  exact Classical.or_iff_not_imp_left.symm

/-! ## One placeholder after the other -/

def among (keys : List κ) (value : κ → List α) (k : κ) : Option (List α) :=
  if k ∈ keys then some (value k) else none

theorem putIn_among_concat (keys : List κ) (value : κ → List α) (k : κ)
    (template : List (α ⊕ κ)) :
    putIn (only k (value k)) (putIn (among keys value) template) =
      putIn (among (keys ++ [k]) value) template := by
  have hvalue : (fun j => (among keys value j).or (only k (value k) j)) =
      among (keys ++ [k]) value := by
    funext j
    unfold among only
    by_cases hkeys : j ∈ keys
    · simp [hkeys]
    · by_cases hj : j = k
      · subst hj
        simp [hkeys]
      · simp [hkeys, hj]
  rw [putIn_putIn, hvalue]

variable [DecidableEq α]

def FillsPlaces (order : List κ) (value : κ → List α) (template : List (α ⊕ κ)) : Prop :=
  ∀ keys, keys <+: order → holders.replaceEach keys value (holders.text template) =
      holders.text (putIn (among keys value) template)

def Distinct (order : List κ) (value : κ → List α) (template : List (α ⊕ κ)) : Prop :=
  ∀ keys k, keys ++ [k] <+: order → value k = holders.token k ∨
      ¬ (holders.token k).map .inl <:+: putIn (among keys value) template

theorem fillsPlaces_iff (order : List κ) (value : κ → List α) (template : List (α ⊕ κ)) :
    holders.FillsPlaces order value template ↔ holders.Distinct order value template := by
  constructor
  · intro h keys k hkeys
    have hbefore := h keys ((prefix_append keys [k]).trans hkeys)
    have hafter := h _ hkeys
    rw [replaceEach_concat, hbefore, ← putIn_among_concat] at hafter
    exact (holders.replaceAll_text_iff k (value k) _).mp hafter
  · intro h keys
    induction keys using List.reverseRecOn with
    | nil =>
      intro _
      have hnone : among [] value = fun _ => none := by
        funext k
        exact if_neg not_mem_nil
      rw [hnone, putIn_none]
      rfl
    | append_singleton keys k ih =>
      intro hkeys
      have hbefore := ih ((prefix_append keys [k]).trans hkeys)
      rw [replaceEach_concat, hbefore, ← putIn_among_concat]
      exact (holders.replaceAll_text_iff k (value k) _).mpr (h keys k hkeys)

end Replacing

section Reading

variable [DecidableEq α]

def readFrom (keys : List κ) : ℕ → List α → List (α ⊕ κ)
  | _, [] => []
  | skip + 1, _ :: text => readFrom keys skip text
  | 0, c :: text =>
    match keys.find? fun k => holders.token k <+: c :: text with
    | some k =>
      .inr k :: readFrom keys ((holders.token k).length - 1) text
    | none => .inl c :: readFrom keys 0 text

def read (keys : List κ) (text : List α) : List (α ⊕ κ) :=
  holders.readFrom keys 0 text

structure Proper (keys : List κ) (template : List (α ⊕ κ)) : Prop where
  known : ∀ k, .inr k ∈ template → k ∈ keys
  clean : ∀ k ∈ keys, ¬ (holders.token k).map .inl <:+: template

variable {holders} {keys : List κ}

theorem readFrom_eq_drop (skip : ℕ) (text : List α) :
    holders.readFrom keys skip text = holders.read keys (text.drop skip) := by
  induction text generalizing skip with
  | nil => cases skip <;> rfl
  | cons c text ih =>
    cases skip with
    | zero => rfl
    | succ skip => exact ih skip

theorem read_token_append {k : κ} (hk : k ∈ keys) (text : List α) :
    holders.read keys (holders.token k ++ text) = .inr k :: holders.read keys text := by
  have hfind : (keys.find? fun j => decide (holders.token j <+:
      holders.opening :: (holders.name k ++ [holders.closing] ++ text))) = some k := by
    cases hfound : keys.find? fun j => decide (holders.token j <+:
        holders.opening :: (holders.name k ++ [holders.closing] ++ text)) with
    | none =>
      have habsent := List.find?_eq_none.mp hfound k hk
      have hpresent : holders.token k <+:
          holders.opening :: (holders.name k ++ [holders.closing] ++ text) :=
        prefix_append (holders.token k) text
      exact absurd (decide_eq_true hpresent) habsent
    | some j =>
      have hfirst := List.find?_some hfound
      rw [holders.eq_of_token_prefix_append (of_decide_eq_true hfirst)]
  show holders.readFrom keys 0
    (holders.opening :: (holders.name k ++ [holders.closing] ++ text)) = _
  rw [readFrom, hfind]
  simp only [readFrom_eq_drop]
  rw [token, length_cons, Nat.add_sub_cancel, drop_left]

theorem read_cons {c : α} {text : List α} (h : ∀ k ∈ keys, ¬ holders.token k <+: c :: text) :
    holders.read keys (c :: text) = .inl c :: holders.read keys text := by
  have hfind : (keys.find? fun k =>
      decide (holders.token k <+: c :: text)) = none := by
    simpa using h
  rw [read, readFrom, hfind]
  rfl

theorem read_induction (holders : Placeholders α κ) (keys : List κ)
    {P : List α → Prop} (hnil : P [])
    (hplace : ∀ k ∈ keys, ∀ text, P text → P (holders.token k ++ text))
    (hother : ∀ c text, (∀ k ∈ keys, ¬ holders.token k <+: c :: text) → P text → P (c :: text))
    (text : List α) : P text := by
  induction hlength : text.length using Nat.strong_induction_on generalizing text with
  | _ length ih =>
    cases text with
    | nil => exact hnil
    | cons c text =>
      by_cases hother' : ∀ k ∈ keys, ¬ holders.token k <+: c :: text
      · have htail := ih text.length (by simp [← hlength]) text rfl
        exact hother c text hother' htail
      · push Not at hother'
        obtain ⟨k, hk, back, hback⟩ := hother'
        have hshorter : back.length < length := by
          have hsum := congrArg List.length hback
          rw [length_append, token, length_cons] at hsum
          omega
        rw [← hback]
        exact hplace k hk back (ih back.length hshorter back rfl)

theorem text_read (keys : List κ) (text : List α) :
    holders.text (holders.read keys text) = text := by
  induction text using read_induction holders keys with
  | hnil => rfl
  | hplace k hk text ih => rw [read_token_append hk, text_inr, ih]
  | hother c text hnot ih => rw [read_cons hnot, text_inl, ih]

theorem proper_read [DecidableEq κ] (keys : List κ) (text : List α) :
    holders.Proper keys (holders.read keys text) := by
  induction text using read_induction holders keys with
  | hnil => exact ⟨by simp [read, readFrom], by simp [read, readFrom, token]⟩
  | hplace k hk text ih =>
    rw [read_token_append hk]
    constructor
    · intro j hj
      rcases mem_cons.mp hj with hj | hj
      · rw [Sum.inr.inj hj]
        exact hk
      · exact ih.known j hj
    · intro j hj
      rw [token_infix_inr]
      exact ih.clean j hj
  | hother c text hnot ih =>
    rw [read_cons hnot]
    constructor
    · intro j hj
      exact ih.known j (mem_of_ne_of_mem (by simp) hj)
    · intro j hj
      rw [infix_cons_iff, not_or]
      refine ⟨?_, ih.clean j hj⟩
      rw [← token_prefix_text_iff, text_read]
      exact hnot j hj

theorem read_text [DecidableEq κ] {template : List (α ⊕ κ)} (h : holders.Proper keys template) :
    holders.read keys (holders.text template) = template := by
  induction template with
  | nil => rfl
  | cons place template ih =>
    cases place with
    | inl c =>
      have htail : holders.Proper keys template :=
        ⟨fun k hk => h.known k (mem_cons_of_mem _ hk),
          fun k hk hinfix => h.clean k hk (infix_cons hinfix)⟩
      have hnot : ∀ k ∈ keys, ¬ holders.token k <+: c :: holders.text template := by
        intro k hk hprefix
        rw [token_prefix_text_iff] at hprefix
        exact h.clean k hk hprefix.isInfix
      rw [text_inl, read_cons hnot, ih htail]
    | inr k =>
      have htail : holders.Proper keys template :=
        ⟨fun j hj => h.known j (mem_cons_of_mem _ hj),
          fun j hj hinfix => h.clean j hj (infix_cons hinfix)⟩
      rw [text_inr, read_token_append (h.known k mem_cons_self), ih htail]

end Reading

end Placeholders

end PyFly.Library
