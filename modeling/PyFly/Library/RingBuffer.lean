import Mathlib.Data.List.Sort
import Mathlib.Order.Basic

/-!
# Polled ring buffers

Records are numbered as they are appended, and the buffer keeps the last ones.
Readers that poll the buffer deliver what was in it at some poll, each record
once and in its order, exactly if every poll selects what is newer than the
poll before.
-/

namespace PyFly.Library

open List

variable {ρ : Type*}

/-- Records with the numbers that they were given when they were appended, of
which at most `capacity` are kept. -/
structure RingBuffer (ρ : Type*) (capacity : ℕ) where
  records : List (ℕ × ρ)
  counter : ℕ
  ascending : records.Pairwise (·.1 < ·.1)
  pos : ∀ record ∈ records, 0 < record.1
  le_counter : ∀ record ∈ records, record.1 ≤ counter
  length_le : records.length ≤ capacity

namespace RingBuffer

variable {capacity : ℕ}

def empty : RingBuffer ρ capacity where
  records := []
  counter := 0
  ascending := .nil
  pos := by simp
  le_counter := by simp
  length_le := by simp

def append (ring : RingBuffer ρ capacity) (record : ρ) : RingBuffer ρ capacity where
  records := (ring.records ++ [(ring.counter + 1, record)]).drop
    (ring.records.length + 1 - capacity)
  counter := ring.counter + 1
  ascending := by
    refine List.Pairwise.sublist (drop_sublist _ _) ?_
    rw [pairwise_append]
    refine ⟨ring.ascending, pairwise_singleton _ _, ?_⟩
    intro old hold new hnew
    rw [mem_singleton.mp hnew]
    exact Nat.lt_succ_of_le (ring.le_counter old hold)
  pos kept hkept := by
    rcases List.mem_append.mp (mem_of_mem_drop hkept) with hold | hnew
    · exact ring.pos kept hold
    · rw [mem_singleton.mp hnew]
      exact Nat.succ_pos _
  le_counter kept hkept := by
    rcases List.mem_append.mp (mem_of_mem_drop hkept) with hold | hnew
    · exact (ring.le_counter kept hold).trans (Nat.le_succ _)
    · rw [mem_singleton.mp hnew]
  length_le := by
    rw [length_drop, length_append, length_singleton]
    omega

def clear (ring : RingBuffer ρ capacity) : RingBuffer ρ capacity :=
  { empty with counter := ring.counter, le_counter := by simp [empty] }

theorem mem_append {ring : RingBuffer ρ capacity} {record : ρ} {kept : ℕ × ρ}
    (h : kept ∈ (ring.append record).records) :
    kept ∈ ring.records ∨ kept.1 = ring.counter + 1 := by
  rcases List.mem_append.mp (mem_of_mem_drop h) with hold | hnew
  · exact .inl hold
  · rw [mem_singleton.mp hnew]
    exact .inr rfl

end RingBuffer

/-! ## Readers -/

inductive ReaderAction (ρ : Type*)
  | append (record : ρ)
  | clear
  | resume

/-- What a reader selects of the buffer with its cursor, the cursor behind it,
and the cursor behind a record that it has yielded. -/
structure Reader (ρ : Type*) where
  poll : ℕ → List (ℕ × ρ) → List (ℕ × ρ) × ℕ
  yielded : ℕ → ℕ × ρ → ℕ

/-- A buffer with a reader: its cursor, what it is about to yield and what it
has yielded; what the buffer held at the polls, and the counter at the last of
them. -/
structure Feed (ρ : Type*) (capacity : ℕ) where
  ring : RingBuffer ρ capacity
  cursor : ℕ
  pending : List (ℕ × ρ)
  emitted : List (ℕ × ρ)
  polled : List (ℕ × ρ)
  mark : ℕ

namespace Feed

variable {capacity : ℕ}

def start : Feed ρ capacity := ⟨.empty, 0, [], [], [], 0⟩

def resume (reader : Reader ρ) (feed : Feed ρ capacity) : Feed ρ capacity :=
  match feed.pending with
  | record :: rest =>
    { feed with
      cursor := reader.yielded feed.cursor record
      pending := rest
      emitted := feed.emitted ++ [record] }
  | [] =>
    { feed with
      pending := (reader.poll feed.cursor feed.ring.records).1
      cursor := (reader.poll feed.cursor feed.ring.records).2
      polled := feed.polled ++ feed.ring.records
      mark := feed.ring.counter }

def step (reader : Reader ρ) (feed : Feed ρ capacity) : ReaderAction ρ → Feed ρ capacity
  | .append record => { feed with ring := feed.ring.append record }
  | .clear => { feed with ring := feed.ring.clear }
  | .resume => feed.resume reader

structure Right (feed : Feed ρ capacity) : Prop where
  ordered : (feed.emitted ++ feed.pending).Pairwise (·.1 < ·.1)
  mem_iff : ∀ record, record ∈ feed.emitted ++ feed.pending ↔ record ∈ feed.polled

def fresh (feed : Feed ρ capacity) : List (ℕ × ρ) :=
  feed.ring.records.filter (feed.mark < ·.1)

structure Marked (feed : Feed ρ capacity) : Prop where
  mark_le : feed.mark ≤ feed.ring.counter
  polled_le : ∀ record ∈ feed.polled, record.1 ≤ feed.mark
  mem_polled : ∀ record ∈ feed.ring.records, record.1 ≤ feed.mark → record ∈ feed.polled

theorem marked_start : Marked (start : Feed ρ capacity) where
  mark_le := le_rfl
  polled_le := by simp [start]
  mem_polled := by simp [start, RingBuffer.empty]

theorem right_start : Right (start : Feed ρ capacity) where
  ordered := .nil
  mem_iff := by simp [start]

variable {reader : Reader ρ} {feed : Feed ρ capacity}

theorem resume_of_nil (hpending : feed.pending = []) : feed.resume reader = { feed with
        pending := (reader.poll feed.cursor feed.ring.records).1
        cursor := (reader.poll feed.cursor feed.ring.records).2
        polled := feed.polled ++ feed.ring.records
        mark := feed.ring.counter } := by
  rw [resume, hpending]

variable {record : ℕ × ρ}

theorem resume_of_cons {rest : List (ℕ × ρ)} (hpending : feed.pending = record :: rest) :
    feed.resume reader = { feed with
        cursor := reader.yielded feed.cursor record
        pending := rest
        emitted := feed.emitted ++ [record] } := by
  rw [resume, hpending]

theorem Marked.step (h : Marked feed) (action : ReaderAction ρ) :
    Marked (feed.step reader action) := by
  cases action with
  | append record =>
    refine ⟨h.mark_le.trans (Nat.le_succ _), h.polled_le, ?_⟩
    intro kept hkept hle
    rcases RingBuffer.mem_append hkept with hold | hnew
    · exact h.mem_polled kept hold hle
    · have hmark := h.mark_le
      have hle : kept.1 ≤ feed.mark := hle
      omega
  | clear =>
    exact ⟨h.mark_le, h.polled_le, fun record hrecord => by cases hrecord⟩
  | resume =>
    rw [Feed.step]
    cases hpending : feed.pending with
    | cons record rest =>
      rw [resume_of_cons hpending]
      exact ⟨h.mark_le, h.polled_le, h.mem_polled⟩
    | nil =>
      rw [resume_of_nil hpending]
      refine ⟨le_rfl, fun record hrecord => ?_, fun record hrecord _ =>
        mem_append_right _ hrecord⟩
      rcases List.mem_append.mp hrecord with hold | hnew
      · exact (h.polled_le record hold).trans h.mark_le
      · exact feed.ring.le_counter record hnew

theorem Marked.mem_fresh (h : Marked feed) : record ∈ feed.fresh ↔
      record ∈ feed.ring.records ∧ record ∉ feed.polled := by
  rw [fresh, mem_filter, decide_eq_true_iff]
  constructor
  · rintro ⟨hmem, hmark⟩
    exact ⟨hmem, fun hold => absurd (h.polled_le record hold) (by omega)⟩
  · rintro ⟨hmem, hnew⟩
    exact ⟨hmem, Nat.lt_of_not_le fun hle =>
      hnew (h.mem_polled record hmem hle)⟩

/-- A poll keeps what is right exactly if it selects what is new. -/
theorem Marked.right_resume_iff (reader : Reader ρ) (h : Marked feed)
    (hright : Right feed) (hpending : feed.pending = []) :
    Right (feed.resume reader) ↔
      (reader.poll feed.cursor feed.ring.records).1 = feed.fresh := by
  obtain ⟨hordered, hmem⟩ := hright
  rw [hpending, append_nil] at hordered hmem
  have hfresh : feed.fresh.Pairwise (·.1 < ·.1) :=
    feed.ring.ascending.sublist filter_sublist
  rw [resume_of_nil hpending]
  constructor
  · rintro ⟨hall, hiff⟩
    obtain ⟨-, hselected, hbehind⟩ := pairwise_append.mp hall
    have hsame : ∀ record, record ∈ (reader.poll feed.cursor feed.ring.records).1 ↔
          record ∈ feed.fresh := by
      intro record
      have hrecord := hiff record
      rw [List.mem_append, List.mem_append, hmem] at hrecord
      rw [h.mem_fresh]
      constructor
      · intro hselect
        have hnew : record ∉ feed.polled := fun hold =>
          absurd (hbehind record ((hmem record).mpr hold) record hselect) (lt_irrefl _)
        exact ⟨(hrecord.mp (.inr hselect)).resolve_left hnew, hnew⟩
      · rintro ⟨hbuffer, hnew⟩
        exact (hrecord.mpr (.inr hbuffer)).resolve_left hnew
    have hperm : (reader.poll feed.cursor feed.ring.records).1.Perm feed.fresh :=
      (perm_ext_iff_of_nodup (hselected.imp fun h heq => by simp [heq] at h)
        (hfresh.imp fun h heq => by simp [heq] at h)).mpr hsame
    exact hperm.eq_of_pairwise (fun a b _ _ hab hba => absurd (hab.trans hba)
      (lt_irrefl _)) hselected hfresh
  · intro hselect
    rw [hselect]
    refine ⟨pairwise_append.mpr ⟨hordered, hfresh, ?_⟩, fun record => ?_⟩
    · intro old hold new hnew
      have hle := h.polled_le old ((hmem old).mp hold)
      have hlt := decide_eq_true_iff.mp (mem_filter.mp hnew).2
      omega
    · rw [List.mem_append, List.mem_append, hmem, h.mem_fresh]
      tauto

theorem Right.yield {rest : List (ℕ × ρ)} (h : Right feed)
    (hpending : feed.pending = record :: rest) :
    Right (feed.resume reader) := by
  obtain ⟨hordered, hmem⟩ := h
  rw [resume_of_cons hpending]
  rw [hpending] at hordered hmem
  refine ⟨?_, fun kept => ?_⟩
  · rwa [append_assoc]
  · rw [append_assoc]
    exact hmem kept

/-- Every state of a run. -/
def Along (reader : Reader ρ) (P : Feed ρ capacity → Prop) :
    Feed ρ capacity → List (ReaderAction ρ) → Prop
  | feed, [] => P feed
  | feed, action :: actions =>
    P feed ∧ Along reader P (feed.step reader action) actions

def AtPolls (reader : Reader ρ) (P : Feed ρ capacity → Prop) :
    Feed ρ capacity → List (ReaderAction ρ) → Prop
  | _, [] => True
  | feed, action :: actions =>
    (action = .resume → feed.pending = [] → P feed) ∧
      AtPolls reader P (feed.step reader action) actions

/-- A run is right exactly if every poll in it selects what is new, whatever
invariant helps to tell. -/
theorem along_right_iff {Inv P : Feed ρ capacity → Prop}
    (hstep : ∀ feed action, Inv feed → Marked feed → Right feed →
      Right (feed.step reader action) → Inv (feed.step reader action))
    (hpoll : ∀ feed, Inv feed → Marked feed → Right feed → feed.pending = [] →
      ((reader.poll feed.cursor feed.ring.records).1 = feed.fresh ↔ P feed))
    (actions : List (ReaderAction ρ)) (hinv : Inv feed) (hmarked : Marked feed)
    (hright : Right feed) :
    Along reader Right feed actions ↔ AtPolls reader P feed actions := by
  induction actions generalizing feed with
  | nil => exact iff_of_true hright trivial
  | cons action actions ih =>
    have hrest : Right (feed.step reader action) →
        (Along reader Right (feed.step reader action) actions ↔
          AtPolls reader P (feed.step reader action) actions) :=
      fun hnext => ih (hstep feed action hinv hmarked hright hnext) (hmarked.step action) hnext
    cases action with
    | append | clear =>
      rw [Along, AtPolls, ← hrest ⟨hright.ordered, hright.mem_iff⟩]
      simp [hright]
    | resume =>
      rw [Along, AtPolls, and_iff_right hright]
      cases hpending : feed.pending with
      | cons record rest =>
        rw [hrest (hright.yield hpending)]
        simp
      | nil =>
        have hiff := (hmarked.right_resume_iff reader hright
          hpending).trans (hpoll feed hinv hmarked hright hpending)
        constructor
        · intro halong
          have hnext : Right (feed.step reader .resume) := by
            cases actions with
            | nil => exact halong
            | cons => exact halong.1
          exact ⟨fun _ _ => hiff.mp hnext, (hrest hnext).mp halong⟩
        · rintro ⟨hpoll, hlater⟩
          exact (hrest (hiff.mpr (hpoll rfl rfl))).mpr hlater

end Feed

end PyFly.Library
