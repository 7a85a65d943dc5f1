import Mathlib.Data.List.Basic

/-!
# Lines of a text

Line breaks of several kinds are made one, a text is cut at its breaks, and
lines which are joined again give the text back unless it has other breaks or
ends in one.
-/

namespace PyFly.Library

open List

def unifyFrom (behindReturn : Bool) : List Char → List Char
  | [] => []
  | c :: text =>
    if c = '\r' then '\n' :: unifyFrom true text
    else if c = '\n' ∧ behindReturn then unifyFrom false text
    else c :: unifyFrom false text

/-- `\r\n` and `\r` become `\n`. -/
def unifyBreaks (text : List Char) : List Char := unifyFrom false text

def linesOf (isBreak : Char → Bool) (text : List Char) : List (List Char) :=
  if ((unifyBreaks text).splitOnP isBreak).getLast? = some [] then
    ((unifyBreaks text).splitOnP isBreak).dropLast
  else (unifyBreaks text).splitOnP isBreak

variable {text : List Char} {c : Char} {lines : List (List Char)}

/-! ## Breaks -/

theorem unifyFrom_of_notMem (h : '\r' ∉ text) : unifyFrom false text = text := by
  induction text with
  | nil => rfl
  | cons c text ih =>
    obtain ⟨hc, htext⟩ := not_or.mp fun hmem => h (mem_cons.mpr hmem)
    rw [unifyFrom, if_neg (Ne.symm hc), if_neg (by simp), ih htext]

theorem return_notMem_unifyFrom (behindReturn : Bool) : '\r' ∉ unifyFrom behindReturn text := by
  induction text generalizing behindReturn with
  | nil => simp [unifyFrom]
  | cons c text ih =>
    unfold unifyFrom
    split
    · simp [ih]
    · rename_i hc
      split
      · exact ih false
      · simp [Ne.symm hc, ih]

theorem mem_unifyFrom (hc : c ≠ '\r' ∧ c ≠ '\n') (behindReturn : Bool) :
    c ∈ unifyFrom behindReturn text ↔ c ∈ text := by
  induction text generalizing behindReturn with
  | nil => rfl
  | cons d text ih =>
    unfold unifyFrom
    split
    · rename_i hd
      simp [hd, hc, ih]
    · split
      · rename_i hd
        simp [hd.1, hc, ih]
      · simp [ih]

theorem getLast?_unifyFrom (text : List Char) (c : Char) :
    ((if c = '\r' then '\n' else c) :: unifyFrom (c = '\r') text).getLast? =
      ((c :: text).getLast?.map fun c => if c = '\r' then '\n' else c) := by
  induction text generalizing c with
  | nil => rfl
  | cons d text ih =>
    rw [List.getLast?_cons_cons, ← ih d, unifyFrom]
    by_cases hd : d = '\r'
    · simp [hd]
    · by_cases hn : d = '\n' ∧ c = '\r'
      · simp [hn]
      · simp [hd, hn]

theorem getLast?_unifyBreaks (text : List Char) : (unifyBreaks text).getLast? =
      text.getLast?.map fun c => if c = '\r' then '\n' else c := by
  cases text with
  | nil => rfl
  | cons c text =>
    rw [← getLast?_unifyFrom, unifyBreaks, unifyFrom]
    by_cases hc : c = '\r' <;> simp [hc]

/-! ## Cuts -/

theorem splitOnP_congr {p q : Char → Bool} (h : ∀ c ∈ text, p c = q c) :
    text.splitOnP p = text.splitOnP q := by
  induction text with
  | nil => rfl
  | cons c text ih =>
    rw [splitOnP_cons_eq_if_modifyHead, splitOnP_cons_eq_if_modifyHead, h c mem_cons_self,
      ih fun d hd => h d (mem_cons_of_mem _ hd)]

theorem of_mem_splitOnP {p : Char → Bool} {line : List Char}
    (hline : line ∈ text.splitOnP p) (hc : c ∈ line) :
    c ∈ text ∧ p c = false := by
  induction text generalizing line with
  | nil => simp_all
  | cons d text ih =>
    rw [splitOnP_cons_eq_if_modifyHead] at hline
    split at hline
    · rcases mem_cons.mp hline with rfl | hline
      · simp at hc
      · exact (ih hline hc).imp_left (mem_cons_of_mem _)
    · rename_i hd
      cases hrest : text.splitOnP p with
      | nil => simp [hrest] at hline
      | cons first rest =>
        rw [hrest, modifyHead_cons] at hline
        rcases mem_cons.mp hline with rfl | hline
        · rcases mem_cons.mp hc with rfl | hc
          · exact ⟨mem_cons_self, by simpa using hd⟩
          · exact (ih (hrest ▸ mem_cons_self) hc).imp_left (mem_cons_of_mem _)
        · exact (ih (hrest ▸ mem_cons_of_mem _ hline) hc).imp_left (mem_cons_of_mem _)

variable {isBreak : Char → Bool}

theorem eq_false_of_mem_linesOf {line : List Char}
    (hline : line ∈ linesOf isBreak text) (hc : c ∈ line) :
    isBreak c = false := by
  unfold linesOf at hline
  split at hline
  · exact (of_mem_splitOnP (dropLast_subset _ hline) hc).2
  · exact (of_mem_splitOnP hline hc).2

theorem linesOf_eq_nil_iff : linesOf isBreak text = [] ↔ text = [] := by
  constructor
  · intro hnil
    have hlast := getLast?_unifyBreaks text
    unfold linesOf at hnil
    split at hnil
    · rename_i hempty
      cases hunified : unifyBreaks text with
      | nil =>
        rw [hunified, List.getLast?_nil, eq_comm, Option.map_eq_none_iff] at hlast
        exact List.getLast?_eq_none_iff.mp hlast
      | cons c rest =>
        rw [hunified, splitOnP_cons_eq_if_modifyHead] at hnil hempty
        obtain ⟨first, others, hothers⟩ :=
          exists_cons_of_ne_nil (splitOnP_ne_nil isBreak rest)
        rw [hothers] at hnil hempty
        split at hnil <;> cases others <;> simp_all
    · exact absurd hnil (splitOnP_ne_nil _ _)
  · rintro rfl
    simp [linesOf, unifyBreaks, unifyFrom]

theorem intercalate_concat_nil (lines : List (List Char)) :
    ['\n'].intercalate (lines ++ [[]]) = lines.flatMap (· ++ ['\n']) := by
  induction lines with
  | nil => rfl
  | cons line lines ih =>
    rw [cons_append, intercalate_cons_of_ne_nil (by simp), ih,
      flatMap_cons]

theorem splitOn_flatMap (h : ∀ line ∈ lines, '\n' ∉ line) :
    (lines.flatMap (· ++ ['\n'])).splitOn '\n' = lines ++ [[]] := by
  rw [← intercalate_concat_nil]
  apply splitOn_intercalate
  · intro line hline
    rcases mem_append.mp hline with hline | hline
    · exact h line hline
    · simp [mem_singleton.mp hline]
  · simp

theorem mem_intercalate (h : c ∈ ['\n'].intercalate lines) :
    c = '\n' ∨ ∃ line ∈ lines, c ∈ line := by
  induction lines with
  | nil => simp at h
  | cons line lines ih =>
    by_cases hlines : lines = []
    · rw [hlines, intercalate_singleton] at h
      exact .inr ⟨line, mem_cons_self, h⟩
    · rw [intercalate_cons_of_ne_nil hlines, mem_append, mem_append] at h
      rcases h with (hline | hbreak) | hrest
      · exact .inr ⟨line, mem_cons_self, hline⟩
      · exact .inl (mem_singleton.mp hbreak)
      · refine (ih hrest).imp_right ?_
        rintro ⟨other, hother, hc⟩
        exact ⟨other, mem_cons_of_mem _ hother, hc⟩

theorem intercalate_append_nil (h : lines ≠ []) :
    ['\n'].intercalate (lines ++ [[]]) = ['\n'].intercalate lines ++ ['\n'] := by
  induction lines with
  | nil => exact absurd rfl h
  | cons line lines ih =>
    by_cases hlines : lines = []
    · simp [hlines]
    · rw [cons_append, intercalate_cons_of_ne_nil (by simp),
        intercalate_cons_of_ne_nil hlines, ih hlines]
      simp

theorem forall_getLast?_iff : (∀ c ∈ text.getLast?, c ≠ '\r' ∧ c ≠ '\n') ↔
      (unifyBreaks text).getLast? ≠ some '\n' := by
  rw [getLast?_unifyBreaks]
  cases text.getLast? with
  | none => simp
  | some c => by_cases hc : c = '\r' <;> simp [hc]

theorem intercalate_linesOf_iff (hn : isBreak '\n' = true) (hne : text ≠ []) :
    ['\n'].intercalate (linesOf isBreak text) = unifyBreaks text ↔
      (∀ c ∈ text, isBreak c = true → c = '\r' ∨ c = '\n') ∧
        ∀ c ∈ text.getLast?, c ≠ '\r' ∧ c ≠ '\n' := by
  by_cases hall : ∀ c ∈ text, isBreak c = true → c = '\r' ∨ c = '\n'
  · have hsplit : (unifyBreaks text).splitOnP isBreak = (unifyBreaks text).splitOn '\n' := by
      refine splitOnP_congr fun c hc => ?_
      have hreturn : c ≠ '\r' :=
        fun heq => return_notMem_unifyFrom false (heq ▸ hc)
      by_cases hline : c = '\n'
      · simp [hline, hn]
      · have htext := (mem_unifyFrom ⟨hreturn, hline⟩ false).mp hc
        have hbreak : isBreak c = false := Bool.eq_false_iff.mpr fun hbreak =>
          (hall c htext hbreak).elim hreturn hline
        simp [hline, hbreak]
    have hjoin : ['\n'].intercalate ((unifyBreaks text).splitOn '\n') =
        unifyBreaks text := intercalate_splitOn '\n'
    rw [forall_getLast?_iff, and_iff_right hall, linesOf, hsplit]
    split
    · rename_i hlast
      obtain ⟨lines, hlines⟩ := List.getLast?_eq_some_iff.mp hlast
      have hfull : lines ≠ [] := by
        intro hnil
        rw [hlines, hnil, nil_append, intercalate_singleton] at hjoin
        have hend := getLast?_unifyBreaks text
        rw [← hjoin, List.getLast?_nil, eq_comm, Option.map_eq_none_iff,
          List.getLast?_eq_none_iff] at hend
        exact hne hend
      rw [hlines, intercalate_append_nil hfull] at hjoin
      rw [hlines, dropLast_concat, ← hjoin]
      simp
    · rename_i hlast
      refine iff_of_true hjoin fun hend => hlast ?_
      obtain ⟨front, hfront⟩ := List.getLast?_eq_some_iff.mp hend
      rw [hfront, splitOn_append_cons_self]
      simp
  · refine iff_of_false (fun hjoin => hall fun c hc hbreak => ?_) fun h => hall h.1
    by_contra hother
    obtain ⟨hreturn, hline⟩ := not_or.mp hother
    have hmem := (mem_unifyFrom ⟨hreturn, hline⟩ false).mpr hc
    rw [← unifyBreaks, ← hjoin] at hmem
    rcases mem_intercalate hmem with heq | ⟨line, hmem, hc⟩
    · exact hline heq
    · rw [eq_false_of_mem_linesOf hmem hc] at hbreak
      cases hbreak

end PyFly.Library
