import Mathlib.Data.List.Induction
import Mathlib.Data.Nat.Basic
import Mathlib.Order.Lattice
import PyFly.CacheManager

/-!
# The cache in memory

An entry may expire.  Reads delete an entry which they find expired, after the
instant of its expiry; the statistics leave it out from that instant on, and
`evict` does not look.
-/

namespace PyFly.Cache

open Library List

variable {κ V τ : Type}

/-- A value, which may be `None`, and the instant of its expiry. -/
structure MemoryEntry (V τ : Type) where
  value : Option V
  expiresAt : Option τ

structure InMemoryCache (κ V τ : Type) where
  store : Dict κ (MemoryEntry V τ)

/-- The statistics, with their constant parts. -/
structure CacheStats where
  size : ℕ
  type : String := "memory"
  maxSize : Option ℕ := none

namespace MemoryEntry

variable [LinearOrder τ] (entry : MemoryEntry V τ) (now : τ)

/-- The test of `get` and `exists`. -/
def expired : Bool :=
  match entry.expiresAt with
  | none => false
  | some expiresAt => expiresAt < now

/-- The test of `get_stats` and `get_keys`. -/
def active : Bool :=
  match entry.expiresAt with
  | none => true
  | some expiresAt => now < expiresAt

end MemoryEntry

namespace InMemoryCache

variable [DecidableEq κ] [LinearOrder τ] [Add τ]

section Methods

variable (cache : InMemoryCache κ V τ) (now : τ)

def get (key : κ) : Option V × InMemoryCache κ V τ :=
  match cache.store.get? key with
  | none => (none, cache)
  | some entry =>
    if entry.expired now then (none, ⟨cache.store.erase key⟩)
    else (entry.value, cache)

def put (key : κ) (value : Option V) (ttl : Option τ) : InMemoryCache κ V τ :=
  ⟨cache.store.set key ⟨value, ttl.map (now + ·)⟩⟩

def evict (key : κ) : Bool × InMemoryCache κ V τ :=
  if (cache.store.get? key).isSome then (true, ⟨cache.store.erase key⟩)
  else (false, cache)

def existsKey (key : κ) : Bool × InMemoryCache κ V τ :=
  match cache.store.get? key with
  | none => (false, cache)
  | some entry =>
    if entry.expired now then (false, ⟨cache.store.erase key⟩)
    else (true, cache)

def getStats : CacheStats where
  size := cache.store.items.countP fun item => item.2.active now

def getKeys : List κ :=
  (cache.store.items.filter fun item => item.2.active now).map Prod.fst

end Methods

end InMemoryCache

/-! ## Histories -/

inductive CacheOperation (κ V τ : Type)
  | get (key : κ)
  | put (key : κ) (value : Option V) (ttl : Option τ)
  | evict (key : κ)
  | existsKey (key : κ)
  | getStats
  | getKeys
  | clear
  | start
  | stop

structure CacheEvent (κ V τ : Type) where
  time : τ
  operation : CacheOperation κ V τ

namespace CacheEvent

def Overwrites (event : CacheEvent κ V τ) (key : κ) : Prop :=
  match event.operation with
  | .put other _ _ => other = key
  | .evict other => other = key
  | .clear => True
  | _ => False

def Reads (event : CacheEvent κ V τ) (key : κ) : Prop :=
  event.operation = .get key ∨ event.operation = .existsKey key

end CacheEvent

namespace InMemoryCache

variable [DecidableEq κ] [LinearOrder τ] [Add τ]

def handle (cache : InMemoryCache κ V τ) (event : CacheEvent κ V τ) : InMemoryCache κ V τ :=
  match event.operation with
  | .get key => (cache.get event.time key).2
  | .put key value ttl => cache.put event.time key value ttl
  | .evict key => (cache.evict key).2
  | .existsKey key => (cache.existsKey event.time key).2
  | .clear => ⟨.empty⟩
  | .getStats | .getKeys | .start | .stop => cache

def after (history : List (CacheEvent κ V τ)) : InMemoryCache κ V τ :=
  history.foldl handle ⟨.empty⟩

end InMemoryCache

section Views

variable (history : List (CacheEvent κ V τ))

def LatestPut (key : κ) (time : τ) (value : Option V) (ttl : Option τ)
    (since : List (CacheEvent κ V τ)) : Prop :=
  (∃ before, history = before ++ ⟨time, .put key value ttl⟩ :: since) ∧
    ∀ event ∈ since, ¬ event.Overwrites key

variable [LinearOrder τ] [Add τ] (now : τ)

def Live (key : κ) (value : Option V) : Prop :=
  ∃ time ttl since, LatestPut history key time value ttl since ∧
    ∀ duration, ttl = some duration → now < time + duration

structure ViewsAgree [DecidableEq κ] : Prop where
  keys : ∀ key, key ∈ (InMemoryCache.after history).getKeys now ↔
    ((InMemoryCache.after history).existsKey now key).1 = true
  nodup : ((InMemoryCache.after history).getKeys now).Nodup
  size : ((InMemoryCache.after history).getStats now).size =
    ((InMemoryCache.after history).getKeys now).length
  get : ∀ key value, ((InMemoryCache.after history).get now key).1 = some value ↔
      Live history now key (some value)
  evict : ∀ key, ((InMemoryCache.after history).evict key).1 = true ↔
    ((InMemoryCache.after history).existsKey now key).1 = true
  live : ∀ key, ((InMemoryCache.after history).existsKey now key).1 = true ↔
    ∃ value, Live history now key value

def ReadOnceExpired : Prop :=
  ∀ key time value duration since,
    LatestPut history key time value (some duration) since → time + duration ≤ now →
        ∃ event ∈ since, event.Reads key ∧ time + duration < event.time

end Views

section Lookups

variable [LinearOrder τ] {key : κ} {now : τ}

namespace InMemoryCache

variable {cache : InMemoryCache κ V τ}

theorem nodup_getKeys : (cache.getKeys now).Nodup := by
  have hsub : (cache.getKeys now).Sublist cache.store.keys :=
    List.Sublist.map Prod.fst filter_sublist
  exact cache.store.keys_nodup.sublist hsub

theorem size_getStats : (cache.getStats now).size = (cache.getKeys now).length := by
  rw [getStats, getKeys, length_map, countP_eq_length_filter]

variable [DecidableEq κ]

theorem mem_getKeys_iff : key ∈ cache.getKeys now ↔
      ∃ entry, cache.store.get? key = some entry ∧ entry.active now = true := by
  rw [getKeys, mem_map]
  constructor
  · intro h
    obtain ⟨⟨other, entry⟩, hitem, rfl⟩ := h
    obtain ⟨hmem, hactive⟩ := mem_filter.mp hitem
    exact ⟨entry, Dict.get?_eq_some_iff.mpr hmem, hactive⟩
  · intro h
    obtain ⟨entry, hentry, hactive⟩ := h
    exact ⟨(key, entry), mem_filter.mpr ⟨Dict.get?_eq_some_iff.mp hentry, hactive⟩, rfl⟩

theorem existsKey_iff : (cache.existsKey now key).1 = true ↔
      ∃ entry, cache.store.get? key = some entry ∧ entry.expired now = false := by
  unfold existsKey
  cases cache.store.get? key with
  | none => simp
  | some entry =>
    cases hexpired : entry.expired now with
    | true => simp [hexpired]
    | false => simp [hexpired]

theorem get_eq_some_iff {value : V} : (cache.get now key).1 = some value ↔
      ∃ entry, cache.store.get? key = some entry ∧
        entry.expired now = false ∧ entry.value = some value := by
  unfold get
  cases cache.store.get? key with
  | none => simp
  | some entry =>
    cases hexpired : entry.expired now with
    | true => simp [hexpired]
    | false => simp [hexpired]

omit [LinearOrder τ] in
theorem evict_iff : (cache.evict key).1 = true ↔
      ∃ entry, cache.store.get? key = some entry := by
  unfold evict
  cases cache.store.get? key with
  | none => simp
  | some entry => simp

end InMemoryCache

theorem MemoryEntry.expired_of_active {entry : MemoryEntry V τ}
    (h : entry.active now = true) : entry.expired now = false := by
  obtain ⟨value, expiresAt⟩ := entry
  cases expiresAt with
  | none => rfl
  | some expiresAt =>
    have hlt : now < expiresAt := of_decide_eq_true h
    exact decide_eq_false (lt_asymm hlt)

end Lookups

/-! ## What is stored -/

theorem latestPut_concat {history : List (CacheEvent κ V τ)}
    {event : CacheEvent κ V τ} {key : κ} {time : τ} {value : Option V}
    {ttl : Option τ} {since : List (CacheEvent κ V τ)} :
    LatestPut (history ++ [event]) key time value ttl since ↔
      since = [] ∧ event = ⟨time, .put key value ttl⟩ ∨
      ∃ earlier, since = earlier ++ [event] ∧ ¬ event.Overwrites key ∧
        LatestPut history key time value ttl earlier := by
  constructor
  · intro h
    obtain ⟨⟨before, hsplit⟩, hkept⟩ := h
    rcases eq_nil_or_concat since with rfl | ⟨earlier, last, rfl⟩
    · exact Or.inl ⟨rfl, (concat_inj.mp (by simpa using hsplit)).2⟩
    · rw [concat_eq_append] at hsplit hkept ⊢
      rw [← cons_append, ← append_assoc] at hsplit
      obtain ⟨hhistory, hlast⟩ := append_inj' hsplit rfl
      obtain rfl := (singleton_inj.mp hlast).symm
      exact Or.inr ⟨earlier, rfl, hkept _ (by simp), ⟨before, hhistory⟩,
        fun other hother => hkept other (mem_append_left _ hother)⟩
  · intro h
    rcases h with ⟨rfl, rfl⟩ | ⟨earlier, rfl, hevent, ⟨before, rfl⟩, hkept⟩
    · exact ⟨⟨history, rfl⟩, by simp⟩
    · refine ⟨⟨before, by simp⟩, ?_⟩
      intro other hother
      rcases mem_append.mp hother with hother | hother
      · exact hkept other hother
      · rwa [mem_singleton.mp hother]

section Stored

variable [DecidableEq κ] [LinearOrder τ] [Add τ]
variable {history : List (CacheEvent κ V τ)} {key : κ}

def CacheEvent.keep (event : CacheEvent κ V τ) (key : κ)
    (current : Option (MemoryEntry V τ)) : Option (MemoryEntry V τ) :=
  match event.operation with
  | .get other | .existsKey other =>
    if key = other then current.filter fun entry => !entry.expired event.time
    else current
  | .put other value ttl =>
    if key = other then some ⟨value, ttl.map (event.time + ·)⟩ else current
  | .evict other => if key = other then none else current
  | .clear => none
  | .getStats | .getKeys | .start | .stop => current

theorem CacheEvent.keep_eq_some_iff {event : CacheEvent κ V τ}
    {current : Option (MemoryEntry V τ)} {entry : MemoryEntry V τ} :
    event.keep key current = some entry ↔ (∃ ttl, event.operation = .put key entry.value ttl ∧
        entry.expiresAt = ttl.map (event.time + ·)) ∨
      ¬ event.Overwrites key ∧ current = some entry ∧
        (event.Reads key → entry.expired event.time = false) := by
  obtain ⟨time, operation⟩ := event
  cases operation with
  | get other =>
    by_cases hkey : key = other
    · simp [keep, Overwrites, Reads, hkey]
    · simp [keep, Overwrites, Reads, hkey, Ne.symm hkey]
  | existsKey other =>
    by_cases hkey : key = other
    · simp [keep, Overwrites, Reads, hkey]
    · simp [keep, Overwrites, Reads, hkey, Ne.symm hkey]
  | put other value ttl =>
    by_cases hkey : key = other
    · subst hkey
      simp only [keep, ↓reduceIte, Option.some.injEq]
      constructor
      · intro h
        rw [← h]
        exact Or.inl ⟨ttl, rfl, rfl⟩
      · intro h
        rcases h with ⟨other, hput, hexpires⟩ | ⟨hkept, -⟩
        · obtain ⟨stored, expiresAt⟩ := entry
          cases hput
          exact congrArg (MemoryEntry.mk stored) hexpires.symm
        · exact absurd rfl hkept
    · simp [keep, Overwrites, Reads, hkey, Ne.symm hkey]
  | evict other =>
    by_cases hkey : key = other
    · simp [keep, Overwrites, hkey]
    · simp [keep, Overwrites, Reads, hkey, Ne.symm hkey]
  | clear => simp [keep, Overwrites]
  | getStats => simp [keep, Overwrites, Reads]
  | getKeys => simp [keep, Overwrites, Reads]
  | start => simp [keep, Overwrites, Reads]
  | stop => simp [keep, Overwrites, Reads]

omit [Add τ] in
theorem get?_erase_of_expired (store : Dict κ (MemoryEntry V τ)) (now : τ) (other key : κ) :
    (match store.get? other with
      | none => store
      | some entry => if entry.expired now then store.erase other
          else store).get? key =
      if key = other then (store.get? key).filter fun entry =>
        !entry.expired now
      else store.get? key := by
  by_cases hkey : key = other
  · subst hkey
    rw [if_pos rfl]
    cases hentry : store.get? key with
    | none => exact hentry
    | some entry =>
      dsimp only
      split
      · next hexpired => simp [Dict.get?_erase, Option.filter, hexpired]
      · next hexpired => simp [hentry, Option.filter, hexpired]
  · rw [if_neg hkey]
    cases store.get? other with
    | none => rfl
    | some entry =>
      dsimp only
      split
      · rw [Dict.get?_erase, if_neg hkey]
      · rfl

namespace InMemoryCache

variable (cache : InMemoryCache κ V τ)

theorem get?_handle (event : CacheEvent κ V τ) (key : κ) :
    (cache.handle event).store.get? key = event.keep key (cache.store.get? key) := by
  obtain ⟨time, operation⟩ := event
  cases operation with
  | get other =>
    refine Eq.trans ?_ (get?_erase_of_expired cache.store time other key)
    simp only [handle, get]
    cases cache.store.get? other with
    | none => rfl
    | some entry =>
      dsimp only
      split <;> rfl
  | existsKey other =>
    refine Eq.trans ?_ (get?_erase_of_expired cache.store time other key)
    simp only [handle, existsKey]
    cases cache.store.get? other with
    | none => rfl
    | some entry =>
      dsimp only
      split <;> rfl
  | put other value ttl =>
    simp only [handle, put, CacheEvent.keep]
    by_cases hkey : key = other
    · rw [if_pos hkey, hkey, Dict.get?_set_self]
    · rw [if_neg hkey, Dict.get?_set_of_ne hkey]
  | evict other =>
    simp only [handle, evict, CacheEvent.keep]
    by_cases hkey : key = other
    · rw [if_pos hkey]
      subst hkey
      split
      · simp [Dict.get?_erase]
      · next hnone => simpa using hnone
    · rw [if_neg hkey]
      split
      · rw [Dict.get?_erase, if_neg hkey]
      · rfl
  | clear => rfl
  | getStats => rfl
  | getKeys => rfl
  | start => rfl
  | stop => rfl

theorem after_concat (history : List (CacheEvent κ V τ)) (event : CacheEvent κ V τ) :
    after (history ++ [event]) = (after history).handle event :=
  foldl_concat _ _ _ _

end InMemoryCache

theorem get?_after_iff {entry : MemoryEntry V τ} :
    (InMemoryCache.after history).store.get? key = some entry ↔
      ∃ time ttl since, LatestPut history key time entry.value ttl since ∧
        entry.expiresAt = ttl.map (time + ·) ∧
        ∀ event ∈ since, event.Reads key → entry.expired event.time = false := by
  induction history using List.reverseRecOn with
  | nil =>
    apply iff_of_false
    · intro h
      cases h
    · intro h
      obtain ⟨time, ttl, since, ⟨⟨before, hsplit⟩, -⟩, -⟩ := h
      cases before <;> cases hsplit
  | append_singleton history event ih =>
    rw [InMemoryCache.after_concat, InMemoryCache.get?_handle, CacheEvent.keep_eq_some_iff, ih]
    constructor
    · intro h
      rcases h with ⟨ttl, hput, hexpires⟩ | ⟨hkept, hstored, hread⟩
      · exact ⟨event.time, ttl, [], latestPut_concat.mpr
          (Or.inl ⟨rfl, by rw [← hput]⟩), hexpires, by simp⟩
      · obtain ⟨time, ttl, since, hput, hexpires, hreads⟩ := hstored
        refine ⟨time, ttl, since ++ [event], latestPut_concat.mpr
          (Or.inr ⟨since, rfl, hkept, hput⟩), hexpires, ?_⟩
        intro other hother
        rcases mem_append.mp hother with hother | hother
        · exact hreads other hother
        · rwa [mem_singleton.mp hother]
    · intro h
      obtain ⟨time, ttl, since, hput, hexpires, hreads⟩ := h
      rcases latestPut_concat.mp hput with
        ⟨rfl, rfl⟩ | ⟨earlier, rfl, hkept, hput⟩
      · exact Or.inl ⟨ttl, rfl, hexpires⟩
      · exact Or.inr ⟨hkept, ⟨time, ttl, earlier, hput, hexpires, fun other hother =>
            hreads other (mem_append_left _ hother)⟩,
          hreads event (by simp)⟩

/-! ## Agreement -/

variable {now : τ}

theorem live_iff_active (hnow : ∀ event ∈ history, event.time ≤ now) {value : Option V} :
    Live history now key value ↔ ∃ entry,
      (InMemoryCache.after history).store.get? key = some entry ∧
        entry.value = value ∧ entry.active now = true := by
  constructor
  · intro h
    obtain ⟨time, ttl, since, hput, hlive⟩ := h
    refine ⟨⟨value, ttl.map (time + ·)⟩, ?_, rfl, ?_⟩
    · refine get?_after_iff.mpr ⟨time, ttl, since, hput, rfl, ?_⟩
      intro event hevent _
      obtain ⟨⟨before, hhistory⟩, -⟩ := hput
      have hle : event.time ≤ now := hnow event (by simp [hhistory, hevent])
      cases ttl with
      | none => rfl
      | some duration =>
        have hlt := hlive duration rfl
        exact decide_eq_false (lt_asymm (lt_of_le_of_lt hle hlt))
    · cases ttl with
      | none => rfl
      | some duration => exact decide_eq_true (hlive duration rfl)
  · intro h
    obtain ⟨entry, hentry, hvalue, hactive⟩ := h
    obtain ⟨time, ttl, since, hput, hexpires, -⟩ := get?_after_iff.mp hentry
    refine ⟨time, ttl, since, hvalue ▸ hput, ?_⟩
    intro duration hduration
    rw [MemoryEntry.active, hexpires, hduration] at hactive
    exact of_decide_eq_true hactive

theorem viewsAgree_iff_active (hnow : ∀ event ∈ history, event.time ≤ now) :
    ViewsAgree history now ↔
      ∀ key entry, (InMemoryCache.after history).store.get? key = some entry →
        entry.active now = true := by
  constructor
  · intro h key entry hentry
    have hexists := (h.evict key).mp (InMemoryCache.evict_iff.mpr ⟨entry, hentry⟩)
    obtain ⟨other, hother, hactive⟩ :=
      InMemoryCache.mem_getKeys_iff.mp ((h.keys key).mpr hexists)
    rw [hentry] at hother
    rwa [Option.some.inj hother]
  · intro h
    have hstored : ∀ key, ((InMemoryCache.after history).existsKey now key).1 = true ↔
          ∃ entry, (InMemoryCache.after history).store.get? key = some entry := by
      intro key
      rw [InMemoryCache.existsKey_iff]
      constructor
      · intro hexists
        obtain ⟨entry, hentry, -⟩ := hexists
        exact ⟨entry, hentry⟩
      · intro hexists
        obtain ⟨entry, hentry⟩ := hexists
        exact ⟨entry, hentry, MemoryEntry.expired_of_active (h key entry hentry)⟩
    refine ⟨?_, InMemoryCache.nodup_getKeys, InMemoryCache.size_getStats, ?_, ?_, ?_⟩
    · intro key
      rw [hstored, InMemoryCache.mem_getKeys_iff]
      constructor
      · intro hkey
        obtain ⟨entry, hentry, -⟩ := hkey
        exact ⟨entry, hentry⟩
      · intro hkey
        obtain ⟨entry, hentry⟩ := hkey
        exact ⟨entry, hentry, h key entry hentry⟩
    · intro key value
      rw [InMemoryCache.get_eq_some_iff, live_iff_active hnow]
      constructor
      · intro hget
        obtain ⟨entry, hentry, -, hvalue⟩ := hget
        exact ⟨entry, hentry, hvalue, h key entry hentry⟩
      · intro hlive
        obtain ⟨entry, hentry, hvalue, hactive⟩ := hlive
        exact ⟨entry, hentry, MemoryEntry.expired_of_active hactive, hvalue⟩
    · intro key
      rw [hstored, InMemoryCache.evict_iff]
    · intro key
      rw [hstored]
      constructor
      · intro hkey
        obtain ⟨entry, hentry⟩ := hkey
        exact ⟨entry.value, (live_iff_active hnow).mpr ⟨entry, hentry, rfl, h key entry hentry⟩⟩
      · intro hlive
        obtain ⟨value, hlive⟩ := hlive
        obtain ⟨entry, hentry, -, -⟩ := (live_iff_active hnow).mp hlive
        exact ⟨entry, hentry⟩

/-- The views agree at an instant exactly when every key whose TTL has elapsed
has been read since. -/
theorem viewsAgree_iff (hnow : ∀ event ∈ history, event.time ≤ now) :
    ViewsAgree history now ↔ ReadOnceExpired history now := by
  rw [viewsAgree_iff_active hnow]
  constructor
  · intro h key time value duration since hput helapsed
    by_contra hunread
    have hstored : (InMemoryCache.after history).store.get? key =
        some ⟨value, some (time + duration)⟩ := by
      refine get?_after_iff.mpr ⟨time, some duration, since, hput, rfl, ?_⟩
      intro event hevent hreads
      refine decide_eq_false ?_
      exact fun hlt => hunread ⟨event, hevent, hreads, hlt⟩
    have hactive : now < time + duration :=
      of_decide_eq_true (h key _ hstored)
    exact absurd helapsed (not_le_of_gt hactive)
  · intro h key entry hentry
    obtain ⟨time, ttl, since, hput, hexpires, hunread⟩ :=
      get?_after_iff.mp hentry
    cases ttl with
    | none => rw [MemoryEntry.active, hexpires]; rfl
    | some duration =>
      have hactive : now < time + duration := by
        by_contra helapsed
        obtain ⟨event, hevent, hreads, hlt⟩ :=
          h key time entry.value duration since hput (not_lt.mp helapsed)
        have hnot := hunread event hevent hreads
        rw [MemoryEntry.expired, hexpires] at hnot
        exact of_decide_eq_false hnot hlt
      rw [MemoryEntry.active, hexpires]
      exact decide_eq_true hactive

end Stored

namespace SessionCache

def puts : List (CacheEvent String String ℕ) :=
  [⟨0, .put "session" (some "alice") (some 10)⟩]

def reads : List (CacheEvent String String ℕ) :=
  puts ++ [⟨11, .existsKey "session"⟩]

end SessionCache

theorem viewsAgree_iff_reads : ViewsAgree SessionCache.reads 12 ↔
      ReadOnceExpired SessionCache.reads 12 :=
  viewsAgree_iff (by decide)

/-- At the instant of its expiry the session exists and is not listed. -/
theorem not_viewsAgree_puts : ¬ ∀ (history : List (CacheEvent String String ℕ)) (now : ℕ),
      (history.Pairwise fun earlier later => earlier.time ≤ later.time) →
        (∀ event ∈ history, event.time ≤ now) → ViewsAgree history now := by
  intro h
  have hviews := h SessionCache.puts 10 (pairwise_singleton _ _) (by decide)
  have hexists : ((InMemoryCache.after SessionCache.puts).existsKey 10
      "session").1 = true := by decide
  have hkeys : (InMemoryCache.after SessionCache.puts).getKeys 10 = [] := by
    decide
  have hmem := (hviews.keys "session").mpr hexists
  rw [hkeys] at hmem
  cases hmem

end PyFly.Cache
