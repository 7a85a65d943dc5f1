import PyFly.Library.RingBuffer

/-!
# The streams of the admin dashboard

`logfile_stream` asks for the records behind the last one that it has yielded.
`traces_stream` counts what the buffer holds, and skips as many traces at the
next poll; once traces have left the buffer, new ones are skipped in their
place, and a full buffer never grows.
-/

namespace PyFly.Admin

open Library Library.Feed List

variable {ρ τ : Type*} {capacity : ℕ}

def tracesReader : Reader τ where
  poll lastCount traces :=
    if traces.length > lastCount then
      (traces.drop lastCount, traces.length)
    else ([], lastCount)
  yielded lastCount _ := lastCount

def logfileReader : Reader ρ where
  poll lastId records := (records.filter (·.1 > lastId), lastId)
  yielded _ record := record.1

structure LastId (feed : Feed ρ capacity) : Prop where
  emitted_le : ∀ record ∈ feed.emitted, record.1 ≤ feed.cursor
  le_mark : feed.cursor ≤ feed.mark

theorem LastId.step {feed : Feed ρ capacity} (action : ReaderAction ρ)
    (h : LastId feed) (hmarked : Marked feed) (hright : Right feed) :
    LastId (feed.step logfileReader action) := by
  cases action with
  | append | clear => exact ⟨h.emitted_le, h.le_mark⟩
  | resume =>
    rw [Feed.step]
    cases hpending : feed.pending with
    | nil =>
      rw [resume_of_nil hpending]
      exact ⟨h.emitted_le, h.le_mark.trans hmarked.mark_le⟩
    | cons record rest =>
      obtain ⟨hordered, hmem⟩ := hright
      rw [hpending] at hordered hmem
      rw [resume_of_cons hpending]
      refine ⟨fun old hold => ?_, ?_⟩
      · rcases List.mem_append.mp hold with hold | hlast
        · exact ((pairwise_append.mp hordered).2.2 old hold record mem_cons_self).le
        · rw [mem_singleton.mp hlast]
          rfl
      · exact hmarked.polled_le record ((hmem record).mp (by simp))

theorem logfileReader_poll {feed : Feed ρ capacity} (h : LastId feed)
    (hmarked : Marked feed) (hright : Right feed)
    (hpending : feed.pending = []) :
    (logfileReader.poll feed.cursor feed.ring.records).1 = feed.fresh := by
  apply filter_congr
  intro record hrecord
  rw [decide_eq_decide]
  constructor
  · intro hcursor
    by_contra hmark
    have hpolled := hmarked.mem_polled record hrecord (by omega)
    have hemitted := (hright.mem_iff record).mpr hpolled
    rw [hpending, append_nil] at hemitted
    have hle := h.emitted_le record hemitted
    omega
  · intro hmark
    have hle := h.le_mark
    omega

/-! ## Traces -/

/-- The traces in the buffer that an earlier poll has found. -/
def known (feed : Feed τ capacity) : List (ℕ × τ) :=
  feed.ring.records.filter (·.1 ≤ feed.mark)

/-- Where there is a new trace, all that were counted last are still in the
buffer. -/
def Kept (feed : Feed τ capacity) : Prop :=
  feed.fresh ≠ [] → (known feed).length = feed.cursor

theorem known_append_fresh (feed : Feed τ capacity) :
    known feed ++ feed.fresh = feed.ring.records := by
  have hascending := feed.ring.ascending
  unfold known fresh
  generalize feed.ring.records = records at hascending ⊢
  induction records with
  | nil => rfl
  | cons record records ih =>
    obtain ⟨hrecord, hrecords⟩ := pairwise_cons.mp hascending
    by_cases hmark : record.1 ≤ feed.mark
    · rw [filter_cons_of_pos (by simpa using hmark),
        filter_cons_of_neg (by simpa using hmark), cons_append,
        ih hrecords]
    · have hnone : records.filter (·.1 ≤ feed.mark) = [] := by
        rw [filter_eq_nil_iff]
        intro later hlater
        have hlt := hrecord later hlater
        simp only [decide_eq_true_eq]
        omega
      rw [hnone, nil_append] at ih
      rw [filter_cons_of_neg (by simpa using hmark), hnone,
        filter_cons_of_pos (by simpa using hmark), ih hrecords,
        nil_append]

theorem length_known_step {feed : Feed τ capacity} (action : ReaderAction τ)
    (h : (known feed).length ≤ feed.cursor) (hmarked : Marked feed) :
    (known (feed.step tracesReader action)).length ≤
      (feed.step tracesReader action).cursor := by
  cases action with
  | append record =>
    have hnew : ¬ feed.ring.counter + 1 ≤ feed.mark := by
      have hmark := hmarked.mark_le
      omega
    have hsublist := (drop_sublist (feed.ring.records.length + 1 - capacity)
      (feed.ring.records ++ [(feed.ring.counter + 1, record)])).filter (·.1 ≤ feed.mark)
    rw [filter_append, filter_cons_of_neg (by simpa using hnew),
      filter_nil, append_nil] at hsublist
    exact hsublist.length_le.trans h
  | clear => exact Nat.zero_le _
  | resume =>
    rw [Feed.step]
    cases hpending : feed.pending with
    | cons record rest =>
      rw [resume_of_cons hpending]
      exact h
    | nil =>
      rw [resume_of_nil hpending]
      refine (length_filter_le _ _).trans ?_
      dsimp only [tracesReader]
      split
      · exact le_rfl
      · omega

/-- The count is right exactly while nothing that was counted is lost. -/
theorem tracesReader_poll_iff {feed : Feed τ capacity} (h : (known feed).length ≤ feed.cursor) :
    (tracesReader.poll feed.cursor feed.ring.records).1 = feed.fresh ↔ Kept feed := by
  have hdrop : (tracesReader.poll feed.cursor feed.ring.records).1 =
      feed.fresh.drop (feed.cursor - (known feed).length) := by
    rw [← known_append_fresh feed]
    dsimp only [tracesReader]
    split
    · rw [drop_append, drop_eq_nil_of_le h, nil_append]
    · rename_i hlength
      rw [length_append] at hlength
      exact (drop_eq_nil_of_le (by omega)).symm
  rw [hdrop, Kept]
  constructor
  · intro hfresh hne
    have hpos := length_pos_iff.mpr hne
    have hlength := congrArg List.length hfresh
    rw [length_drop] at hlength
    omega
  · intro hkept
    cases hfresh : feed.fresh with
    | nil => exact drop_nil
    | cons record records =>
      rw [hkept (by simp [hfresh]), Nat.sub_self, drop_zero]

/-- `logfile_stream` yields every record that a poll finds once and in order,
in every run; `traces_stream` does in those where no trace that was counted last
has left the buffer when a poll finds a new one. -/
theorem streams_right_iff {maxRecords maxTraces : ℕ}
    (logged : List (ReaderAction ρ)) (traced : List (ReaderAction τ)) :
    Along logfileReader Right (start : Feed ρ maxRecords) logged ∧
      (Along tracesReader Right (start : Feed τ maxTraces) traced ↔
        AtPolls tracesReader Kept (start : Feed τ maxTraces) traced) := by
  constructor
  · rw [along_right_iff (P := fun _ => True)
      (fun feed action h hmarked hright _ => h.step action hmarked hright)
      (fun feed h hmarked hright hpending =>
        iff_of_true (logfileReader_poll h hmarked hright hpending) trivial)
      logged ⟨by simp [start], le_rfl⟩ marked_start right_start]
    generalize (start : Feed ρ maxRecords) = feed
    induction logged generalizing feed with
    | nil => trivial
    | cons action logged ih => exact ⟨fun _ _ => trivial, ih _⟩
  · exact along_right_iff
      (fun feed action h hmarked _ _ => length_known_step action h hmarked)
      (fun feed h _ _ _ => tracesReader_poll_iff h)
      traced (by simp [known, start, RingBuffer.empty]) marked_start right_start

/-- In a buffer for one trace, the second is never yielded. -/
theorem not_right_tracesReader : ¬ ∀ traced : List (ReaderAction Unit),
      Along tracesReader Right (start : Feed Unit 1) traced := by
  intro h
  have hrun := h [.append (), .resume, .resume, .append (), .resume]
  have hlost := (hrun.2.2.2.2.2.mem_iff (2, ())).mpr (by decide)
  exact absurd hlost (by decide)

end PyFly.Admin
