import PyFly.QueryBus

/-!
# Invalidation of cached queries

The bus puts its own prefix before a cache key, and a `QueryCacheAdapter` puts
another one before whatever it is given.  `clear_cache`, `evict` and the
invalidator start from the bare key and so name a place which the bus does
not use.
-/

namespace PyFly.Cqrs

open Library Cache

variable {κ ι γ ε V τ : Type} [DecidableEq τ]

/-! ## The invalidator -/

/-- An event: its type and the `str` of those attributes which are not
`None`. -/
structure Event (τ : Type) where
  type : τ
  getattr : List Char → Option (List Char)

/-- What becomes of a match of `\{(\w+)\}`. -/
def replaceField (event : Event τ) (name : List Char) : List Char :=
  (event.getattr name).getD ('{' :: name ++ ['}'])

/-- The substitution in what is left of a pattern, after `skip` characters
which belong to the last match. -/
def resolveFrom (word : Char → Bool) (event : Event τ) : ℕ → List Char → List Char
  | _, [] => []
  | skip + 1, _ :: text => resolveFrom word event skip text
  | 0, c :: text =>
    let name := text.takeWhile word
    if c = '{' ∧ name ≠ [] ∧ (text.drop name.length).head? = some '}' then
      replaceField event name ++ resolveFrom word event (name.length + 1) text
    else c :: resolveFrom word event 0 text

/-- `_resolve_pattern`, where `word` are the characters of `\w`. -/
def resolvePattern (word : Char → Bool) (pattern : List Char) (event : Event τ) : List Char :=
  resolveFrom word event 0 pattern

structure EventDrivenCacheInvalidator (τ : Type) where
  rules : Dict τ (List (List Char)) := Dict.empty

namespace EventDrivenCacheInvalidator

variable (invalidator : EventDrivenCacheInvalidator τ) (word : Char → Bool)

def register (type : τ) (pattern : List Char) : EventDrivenCacheInvalidator τ where
  rules := invalidator.rules.set type ((invalidator.rules.get? type).getD [] ++ [pattern])

def resolved (event : Event τ) : List (List Char) :=
  ((invalidator.rules.get? event.type).getD []).map fun pattern =>
    resolvePattern word pattern event

def onEvent (adapter : CacheAdapter) (store : Store (List Char) V)
    (event : Event τ) : Store (List Char) V :=
  (invalidator.resolved word event).foldl
    (fun store key => (adapter.evict store key).2) store

end EventDrivenCacheInvalidator

/-! ## Ways to invalidate -/

/-- `clear_cache` of the bus, `evict` of its adapter, or an event which comes
to an invalidator over that adapter. -/
inductive Invalidation (τ : Type)
  | clearCache (key : List Char)
  | evict (key : List Char)
  | onEvent (invalidator : EventDrivenCacheInvalidator τ) (event : Event τ)

namespace Invalidation

variable (word : Char → Bool)

def names : Invalidation τ → List (List Char)
  | .clearCache key => [key]
  | .evict key => [key]
  | .onEvent invalidator event => invalidator.resolved word event

def run (bus : QueryBus κ ι γ ε V) (adapter : CacheAdapter)
    (store : Store (List Char) V) : Invalidation τ → Store (List Char) V
  | .clearCache key => bus.clearCache store key
  | .evict key => (adapter.evict store key).2
  | .onEvent invalidator event => invalidator.onEvent word adapter store event

end Invalidation

def CacheAdapter.entry (adapter : CacheAdapter) (key : List Char) : Option (List Char) :=
  adapter.place (cqrsCachePrefix ++ key)

structure Invalidates (python : Python κ ι) (bus : QueryBus κ ι γ ε V)
    (adapter : CacheAdapter) (names : List (List Char))
    (before after : Store (List Char) V) (query : Query κ ι) : Prop where
  reruns : ∀ call : QueryCall κ ι γ ε, call.query = query →
    (∃ handler, bus.accept call = .ok handler) →
      (bus.execute python after call).1.handled = true
  keeps : ∀ key ∉ names, ∀ place, adapter.entry key = some place →
    after.get? place = before.get? place

structure CachedAt (python : Python κ ι) (bus : QueryBus κ ι γ ε V)
    (adapter : CacheAdapter) (store : Store (List Char) V)
    (query : Query κ ι) (key : List Char) (result : Option V) : Prop where
  cache : bus.cache = some adapter
  handler : ∃ handler, bus.findHandler query.cls = some handler ∧ handler.supportsCaching = true
  cacheable : query.cacheable = true
  cacheKey : query.getCacheKey python = some key
  nonempty : key ≠ []
  stored : ∃ place, adapter.entry key = some place ∧ store.get? place = some result

/-! ## Keys and places -/

variable {other place : List Char}

theorem CacheAdapter.place_inj {adapter : CacheAdapter}
    {key : List Char} (hkey : adapter.place key = some place) :
    adapter.place other = some place ↔ other = key := by
  cases adapter with
  | plain =>
    cases hkey
    simp [CacheAdapter.place]
  | query available =>
    cases available with
    | false => cases hkey
    | true =>
      cases hkey
      simp [CacheAdapter.place]

theorem CacheAdapter.get?_evict (adapter : CacheAdapter)
    (store : Store (List Char) V) {key : List Char}
    (hother : adapter.place other = some place) :
    (adapter.evict store key).2.get? place =
      if other = key then none else store.get? place := by
  unfold CacheAdapter.evict
  cases hkey : adapter.place key with
  | none =>
    have hne : other ≠ key := by
      intro hsame
      rw [hsame, hkey] at hother
      cases hother
    simp [hne]
  | some target =>
    by_cases hsame : other = key
    · have htarget : place = target := by
        rw [hsame, hkey] at hother
        exact (Option.some.inj hother).symm
      simp [Store.evict, Dict.get?_erase, hsame, htarget]
    · have hne : place ≠ target := by
        intro hplace
        rw [← hplace] at hkey
        exact hsame ((CacheAdapter.place_inj hkey).mp hother)
      simp [Store.evict, Dict.get?_erase, hsame, hne]

theorem CacheAdapter.get?_foldl_evict (adapter : CacheAdapter)
    (keys : List (List Char)) (store : Store (List Char) V)
    (hother : adapter.place other = some place) :
    (keys.foldl (fun store key => (adapter.evict store key).2) store).get? place =
      if other ∈ keys then none else store.get? place := by
  induction keys generalizing store with
  | nil => simp
  | cons key keys ih =>
    rw [List.foldl_cons, ih, adapter.get?_evict store hother]
    by_cases hkey : other = key <;> by_cases hkeys : other ∈ keys <;> simp [hkey, hkeys]

theorem Invalidation.get?_run {bus : QueryBus κ ι γ ε V}
    {adapter : CacheAdapter} (hcache : bus.cache = some adapter)
    (word : Char → Bool) (store : Store (List Char) V)
    (invalidation : Invalidation τ) {key : List Char}
    (hkey : adapter.place key = some place) :
    (invalidation.run word bus adapter store).get? place =
      if key ∈ invalidation.names word then none else store.get? place := by
  cases invalidation with
  | clearCache named =>
    simp [Invalidation.run, QueryBus.clearCache, hcache, Invalidation.names,
      adapter.get?_evict store hkey]
  | evict named =>
    simp [Invalidation.run, Invalidation.names, adapter.get?_evict store hkey]
  | onEvent invalidator event =>
    exact adapter.get?_foldl_evict (invalidator.resolved word event) store hkey

/-! ## The query runs again -/

variable {python : Python κ ι} {bus : QueryBus κ ι γ ε V}
  {adapter : CacheAdapter} {store : Store (List Char) V} {query : Query κ ι}
  {key : List Char} {result : Option V}

theorem CachedAt.buildCacheKey (h : CachedAt python bus adapter store query key result) :
    QueryBus.buildCacheKey python query = some (cqrsCachePrefix ++ key) := by
  unfold QueryBus.buildCacheKey
  rw [h.cacheKey]
  cases hkey : key with
  | nil => exact absurd hkey h.nonempty
  | cons c rest => rfl

theorem CachedAt.handled_iff (h : CachedAt python bus adapter store query key result)
    {later : Store (List Char) V} (hplace : adapter.entry key = some place)
    {call : QueryCall κ ι γ ε} (hquery : call.query = query)
    {handler : QueryHandler κ ι γ ε V} (haccept : bus.accept call = .ok handler) :
    (bus.execute python later call).1.handled = true ↔ later.get place = none := by
  have hsupports : handler.supportsCaching = true := by
    obtain ⟨found, hfind, hsupports⟩ := h.handler
    have hfound := QueryBus.findHandler_of_accept haccept
    rw [hquery, hfind] at hfound
    exact Option.some.inj hfound ▸ hsupports
  have hget : bus.tryCacheGet python later handler call.query = later.get place := by
    simp [QueryBus.tryCacheGet, QueryBus.cacheSlot, h.cache, hquery,
      h.cacheable, hsupports, h.buildCacheKey, CacheAdapter.get,
      show adapter.place (cqrsCachePrefix ++ key) = some place from hplace]
  unfold QueryBus.execute
  simp only [haccept, hget]
  cases later.get place with
  | some value => simp
  | none => cases handler.answer call <;> simp

theorem CachedAt.exists_call (h : CachedAt python bus adapter store query key result) :
    ∃ handler, bus.accept { query := query } = .ok handler := by
  obtain ⟨handler, hfind, -⟩ := h.handler
  exact ⟨handler, by
    simp [QueryBus.accept, hfind, bind, Except.bind]⟩

/-- An invalidation which names the key of a cached query does its work exactly
when the result was `None` or the prefixed key is named too, and no other key
is affected by its prefix. -/
theorem invalidates_iff (word : Char → Bool) (invalidation : Invalidation τ)
    (hcached : CachedAt python bus adapter store query key result) :
    Invalidates python bus adapter (invalidation.names word) store
        (invalidation.run word bus adapter store) query ↔
      (result = none ∨ cqrsCachePrefix ++ key ∈ invalidation.names word) ∧
        ∀ other ∉ invalidation.names word, cqrsCachePrefix ++ other ∈ invalidation.names word →
            ∀ place, adapter.entry other = some place → store.get? place = none := by
  have hrun : ∀ other place, adapter.entry other = some place →
      (invalidation.run word bus adapter store).get? place =
        if cqrsCachePrefix ++ other ∈ invalidation.names word then none
        else store.get? place := fun other place hplace =>
    invalidation.get?_run hcached.cache word store hplace
  obtain ⟨place, hplace, hstored⟩ := hcached.stored
  have hreruns : (∀ call : QueryCall κ ι γ ε, call.query = query →
      (∃ handler, bus.accept call = .ok handler) →
        (bus.execute python (invalidation.run word bus adapter store) call).1.handled = true) ↔
      result = none ∨ cqrsCachePrefix ++ key ∈ invalidation.names word := by
    have hnone : (invalidation.run word bus adapter store).get place = none ↔
        result = none ∨ cqrsCachePrefix ++ key ∈ invalidation.names word := by
      unfold Store.get
      rw [hrun key place hplace, hstored]
      by_cases hnamed : cqrsCachePrefix ++ key ∈ invalidation.names word <;> simp [hnamed]
    rw [← hnone]
    constructor
    · intro hall
      obtain ⟨handler, haccept⟩ := hcached.exists_call
      exact (hcached.handled_iff hplace rfl haccept).mp (hall _ rfl ⟨handler, haccept⟩)
    · rintro hget call hquery ⟨handler, haccept⟩
      exact (hcached.handled_iff hplace hquery haccept).mpr hget
  have hkeeps : (∀ other ∉ invalidation.names word, ∀ place, adapter.entry other = some place →
        (invalidation.run word bus adapter store).get? place = store.get? place) ↔
      ∀ other ∉ invalidation.names word, cqrsCachePrefix ++ other ∈ invalidation.names word →
          ∀ place, adapter.entry other = some place → store.get? place = none := by
    constructor
    · intro hall other hother hnamed place hplace
      have hkept := hall other hother place hplace
      rw [hrun other place hplace, if_pos hnamed] at hkept
      exact hkept.symm
    · intro hall other hother place hplace
      rw [hrun other place hplace]
      by_cases hnamed : cqrsCachePrefix ++ other ∈ invalidation.names word
      · rw [if_pos hnamed, hall other hother hnamed place hplace]
      · rw [if_neg hnamed]
  rw [← hreruns, ← hkeeps]
  constructor
  · intro h
    exact ⟨h.reruns, h.keeps⟩
  · intro h
    exact ⟨h.1, h.2⟩

/-! ## A query which stays cached -/

def orderQuery : Query Unit Empty where
  cls := ()
  fields := []
  customKey := some (some ['o', '7'])

def orderPython : Python Unit Empty where
  className _ := ['G', 'e', 't', 'O', 'r', 'd', 'e', 'r']
  strHash text := text.length
  objectHash := Empty.elim
  repr _ := []

def orderBus : QueryBus Unit Empty Empty Empty ℕ where
  findHandler _ := some
    { supportsCaching := true
      handle := fun _ => .ok (some 7)
      handleWithContext := fun _ context => context.elim }
  cache := some .plain
  errorText := Empty.elim

def orderStore : Store (List Char) ℕ :=
  orderBus.after orderPython [{ query := orderQuery }]

theorem orderQuery_cachedAt :
    CachedAt orderPython orderBus .plain orderStore orderQuery ['o', '7'] (some 7) where
  cache := rfl
  handler := ⟨_, rfl, rfl⟩
  cacheable := rfl
  cacheKey := rfl
  nonempty := by simp
  stored := ⟨cqrsCachePrefix ++ ['o', '7'], rfl, by decide⟩

def asciiWord (c : Char) : Bool := c.isAlphanum || c = '_'

theorem invalidates_iff_order : Invalidates orderPython orderBus .plain [['o', '7']] orderStore
        (orderBus.clearCache orderStore ['o', '7']) orderQuery ↔
      (some 7 = none ∨ cqrsCachePrefix ++ ['o', '7'] ∈ [['o', '7']]) ∧
        ∀ other ∉ [['o', '7']], cqrsCachePrefix ++ other ∈ [['o', '7']] →
          ∀ place, CacheAdapter.plain.entry other = some place → orderStore.get? place = none :=
  invalidates_iff asciiWord (Invalidation.clearCache ['o', '7'] :
    Invalidation Unit) orderQuery_cachedAt

theorem not_invalidates_order :
    ¬ Invalidates orderPython orderBus .plain [['o', '7']] orderStore
      (orderBus.clearCache orderStore ['o', '7']) orderQuery := by
  intro h
  have hhandled := h.reruns { query := orderQuery } rfl ⟨_, rfl⟩
  revert hhandled
  decide

end PyFly.Cqrs
