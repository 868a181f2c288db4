import Mathlib
import PixelShader.Bytecode.Assemble
import PixelShader.KernelCache
/-!
# What a kernel cache does over a whole run

A run is a list of calls on a new cache; it leaves a record of what was answered and a cache (`Session`).  Two things
hold after every run (`Session.Valid`).  Each kernel in the cache is the one that its bytes decode and compile to, so
that a lookup answers as if there were no cache.  And the keys are those of the lookups that succeeded since the last
clearing, each counted at its last lookup, as many of the latest as there is room for; so the record alone tells which
lookups are answered from memory.
-/
namespace PixelShader.KernelCache

/-! ## Runs -/

inductive Call where
  | fetch (bytes : List UInt8)
  | clear

inductive Event where
  | fetched (bytes : List UInt8) (answer : Except Fault (KernelOrigin × Kernel))
  | cleared

/-- What happened, in the order in which it did, and the cache that is left. -/
structure Session where
  events : List Event
  cache : KernelCache

namespace Session

def new (capacity : Nat) : Session := ⟨[], { capacity }⟩

def perform (s : Session) : Call → Session
  | .fetch bytes => ⟨s.events ++ [.fetched bytes (s.cache.fetch bytes).1], (s.cache.fetch bytes).2⟩
  | .clear => ⟨s.events ++ [.cleared], s.cache.clear⟩

def run (capacity : Nat) (calls : List Call) : Session := calls.foldl perform (new capacity)

end Session

/-! ## One lookup -/

def keys (c : KernelCache) : List (List UInt8) := c.entries.map Prod.fst

def Faithful (c : KernelCache) : Prop := ∀ e ∈ c.entries, build e.1 = .ok e.2

theorem lookup_eq_none {c : KernelCache} {bytes : List UInt8} : c.entries.lookup bytes = none ↔ bytes ∉ c.keys := by
  rw [List.lookup_eq_none_iff]
  constructor
  · intro h hm
    obtain ⟨e, he, rfl⟩ := List.mem_map.1 hm
    exact absurd rfl (bne_iff_ne.1 (h e he))
  · intro h e he
    exact bne_iff_ne.2 fun hb => h (hb ▸ List.mem_map_of_mem he)

theorem mem_of_lookup {c : KernelCache} {bytes : List UInt8} {k : Kernel} (h : c.entries.lookup bytes = some k) :
    (bytes, k) ∈ c.entries := by
  obtain ⟨l₁, l₂, he, -⟩ := List.lookup_eq_some_iff.1 h
  rw [he]
  exact List.mem_append_right _ List.mem_cons_self

theorem keys_touch (c : KernelCache) (bytes : List UInt8) (k : Kernel) :
    (c.touch bytes k).keys = (bytes :: c.keys.filter (· != bytes)).take c.capacity := by
  unfold keys touch
  rw [List.map_take, List.map_cons, List.filter_map]
  rfl

theorem Faithful.touch {c : KernelCache} (h : c.Faithful) {bytes : List UInt8} {k : Kernel} (hb : build bytes = .ok k) :
    (c.touch bytes k).Faithful := by
  intro e he
  rcases List.mem_cons.1 (List.mem_of_mem_take he) with rfl | he
  · exact hb
  · exact h e (List.mem_filter.1 he).1

theorem Faithful.fetch_ok {c : KernelCache} (h : c.Faithful) {bytes : List UInt8} {k : Kernel}
    (hb : build bytes = .ok k) :
    c.fetch bytes = (.ok (if bytes ∈ c.keys then .memory else .compiled, k), c.touch bytes k) := by
  unfold fetch
  cases hl : c.entries.lookup bytes with
  | none =>
    rw [if_neg (lookup_eq_none.1 hl)]
    simp [hb]
  | some k' =>
    have hk : k' = k := Except.ok.inj ((h _ (mem_of_lookup hl)).symm.trans hb)
    have hm : bytes ∈ c.keys := List.mem_map_of_mem (f := Prod.fst) (mem_of_lookup hl)
    rw [if_pos hm, hk]

theorem Faithful.fetch_error {c : KernelCache} (h : c.Faithful) {bytes : List UInt8} {fault : Fault}
    (hb : build bytes = .error fault) : c.fetch bytes = (.error fault, c) := by
  unfold fetch
  cases hl : c.entries.lookup bytes with
  | none => simp [hb]
  | some k => cases (h _ (mem_of_lookup hl)).symm.trans hb

/-! ## The latest keys of a record -/

def Event.success? : Event → Option (List UInt8)
  | .fetched bytes (.ok _) => some bytes
  | _ => none

def successes (events : List Event) : List (List UInt8) := events.filterMap Event.success?

/-- What an event does to the keys of the lookups so far, latest first. -/
def note (stack : List (List UInt8)) : Event → List (List UInt8)
  | .fetched bytes (.ok _) => bytes :: stack.filter (· != bytes)
  | .fetched _ (.error _) => stack
  | .cleared => []

/-- The keys looked up with success since the last clearing, each once, latest first. -/
def recency (events : List Event) : List (List UInt8) := events.foldl note []

theorem recency_concat (events : List Event) (e : Event) : recency (events ++ [e]) = note (recency events) e :=
  List.foldl_concat ..

theorem nodup_recency (events : List Event) : (recency events).Nodup := by
  induction events using List.reverseRecOn with
  | nil => exact List.nodup_nil
  | append_singleton events e ih =>
    rw [recency_concat]
    unfold note
    split
    · exact List.nodup_cons.2 ⟨by simp, ih.filter _⟩
    · exact ih
    · exact List.nodup_nil

theorem successes_concat (events : List Event) (e : Event) :
    successes (events ++ [e]) = successes events ++ e.success?.toList := by
  unfold successes
  rw [List.filterMap_append]
  cases h : e.success? <;> simp [h]

theorem foldl_note (stack : List (List UInt8)) {events : List Event} (hc : .cleared ∉ events) :
    events.foldl note stack = recency events ++ stack.filter fun b => !(successes events).contains b := by
  induction events using List.reverseRecOn with
  | nil => simp [recency, successes]
  | append_singleton events e ih =>
    have hne : e ≠ .cleared := fun he => hc (by simp [he])
    rw [List.foldl_concat, recency_concat, successes_concat, ih fun h => hc (List.mem_append_left _ h)]
    cases e with
    | cleared => exact absurd rfl hne
    | fetched bytes answer =>
      cases answer with
      | error fault => simp [note, Event.success?]
      | ok found =>
        simp only [note, Event.success?, Option.toList_some, List.filter_append, List.filter_filter, List.cons_append]
        congr 2
        refine List.filter_congr fun b _ => ?_
        rw [Bool.eq_iff_iff]
        simp [and_comm]

theorem mem_recency {events : List Event} (hc : .cleared ∉ events) {bytes : List UInt8} :
    bytes ∈ recency events ↔ bytes ∈ successes events := by
  induction events using List.reverseRecOn with
  | nil => simp [recency, successes]
  | append_singleton events e ih =>
    have ih := ih fun h => hc (List.mem_append_left _ h)
    rw [recency_concat, successes_concat]
    cases e with
    | cleared => exact absurd (by simp) hc
    | fetched b answer =>
      cases answer with
      | error fault => simpa [note, Event.success?] using ih
      | ok found =>
        by_cases hb : bytes = b
        · simp [note, Event.success?, hb]
        · simp [note, Event.success?, hb, ih]

theorem length_recency {events : List Event} (hc : .cleared ∉ events) :
    (recency events).length = (successes events).toFinset.card := by
  rw [← List.toFinset_card_of_nodup (nodup_recency events)]
  congr 1
  ext bytes
  simp [mem_recency hc]

theorem exists_last_fetch {events : List Event} {bytes : List UInt8} (h : bytes ∈ recency events) :
    ∃ earlier found later, events = earlier ++ .fetched bytes (.ok found) :: later ∧ .cleared ∉ later ∧
      bytes ∉ successes later := by
  induction events using List.reverseRecOn with
  | nil => cases h
  | append_singleton events e ih =>
    rw [recency_concat] at h
    cases e with
    | cleared => cases h
    | fetched b answer =>
      -- unless the last event is the lookup itself, it is behind the one that is there before
      have hbehind : bytes ∈ recency events → bytes ∉ (Event.fetched b answer).success?.toList →
          ∃ earlier found later, events ++ [.fetched b answer] = earlier ++ .fetched bytes (.ok found) :: later ∧
            .cleared ∉ later ∧ bytes ∉ successes later := by
        intro hm hs
        obtain ⟨earlier, found, later, rfl, hc, hl⟩ := ih hm
        refine ⟨earlier, found, later ++ [.fetched b answer], by simp, by simp [hc], ?_⟩
        rw [successes_concat]
        simp [hl, hs]
      cases answer with
      | error fault => exact hbehind h (by simp [Event.success?])
      | ok found =>
        by_cases hb : bytes = b
        · exact ⟨events, found, [], by rw [hb], by simp, by simp [successes]⟩
        · refine hbehind ?_ (by simp [Event.success?, hb])
          simpa [note, hb] using h

/-! ## Runs keep to the record -/

theorem take_filter_take {α : Type} [BEq α] [LawfulBEq α] (a : α) : ∀ {l : List α} (n : Nat), l.Nodup →
    ((l.take (n + 1)).filter (· != a)).take n = (l.filter (· != a)).take n
  | [], _, _ => rfl
  | b :: l, n, h => by
    obtain ⟨hb, hl⟩ := List.nodup_cons.1 h
    rw [List.take_succ_cons]
    by_cases hba : b = a
    · -- the element that goes is the first, and of the rest none is another
      have hid : ∀ l' : List α, (∀ x ∈ l', x ∈ l) → l'.filter (· != a) = l' := fun l' hsub =>
        List.filter_eq_self.2 fun x hx => bne_iff_ne.2 fun hxa => hb (hba ▸ hxa ▸ hsub x hx)
      rw [List.filter_cons_of_neg (by simp [hba]), List.filter_cons_of_neg (by simp [hba]),
        hid _ fun x hx => List.mem_of_mem_take hx, hid _ fun x hx => hx, List.take_take, Nat.min_self]
    · rw [List.filter_cons_of_pos (by simp [hba]), List.filter_cons_of_pos (by simp [hba])]
      cases n with
      | zero => rfl
      | succ n => rw [List.take_succ_cons, List.take_succ_cons, take_filter_take a n hl]

theorem take_cons_filter_take {α : Type} [BEq α] [LawfulBEq α] {l : List α} (h : l.Nodup) (a : α) (n : Nat) :
    (a :: (l.take n).filter (· != a)).take n = (a :: l.filter (· != a)).take n := by
  cases n with
  | zero => rfl
  | succ n => rw [List.take_succ_cons, List.take_succ_cons, take_filter_take a n h]

namespace Session

/-- What every run keeps: the kernels are those of their keys, and the keys are the latest of the record. -/
structure Valid (capacity : Nat) (s : Session) : Prop where
  capacity_eq : s.cache.capacity = capacity
  faithful : s.cache.Faithful
  keys_eq : s.cache.keys = (recency s.events).take capacity

theorem valid_new (n : Nat) : (new n).Valid n where
  capacity_eq := rfl
  faithful := fun e he => nomatch he
  keys_eq := by simp [new, keys, recency]

theorem Valid.perform {n : Nat} {s : Session} (h : s.Valid n) (call : Call) : (s.perform call).Valid n := by
  cases call with
  | clear =>
    refine ⟨h.capacity_eq, (fun e he => nomatch he), ?_⟩
    simp [Session.perform, recency_concat, note, keys, KernelCache.clear]
  | fetch bytes =>
    simp only [Session.perform]
    cases hb : build bytes with
    | error fault =>
      rw [h.faithful.fetch_error hb]
      exact ⟨h.capacity_eq, h.faithful, by rw [recency_concat]; exact h.keys_eq⟩
    | ok k =>
      rw [h.faithful.fetch_ok hb]
      refine ⟨h.capacity_eq, h.faithful.touch hb, ?_⟩
      -- the cache moves the key in what it kept, the record in all keys
      rw [recency_concat, keys_touch, h.capacity_eq, h.keys_eq]
      exact take_cons_filter_take (nodup_recency s.events) bytes n

theorem valid_run (n : Nat) (calls : List Call) : (run n calls).Valid n := by
  induction calls using List.reverseRecOn with
  | nil => exact valid_new n
  | append_singleton calls call ih =>
    rw [run, List.foldl_concat]
    exact ih.perform call

end Session

/-! ## Transparency -/

theorem build_of_decode_error {bytes : List UInt8} {fault : Bytecode.DecodeFault}
    (h : Bytecode.decode bytes = .error fault) : build bytes = .error (.malformed fault) := by
  unfold build
  rw [h]
  rfl

theorem build_of_decode_ok {bytes : List UInt8} {p : Program} (h : Bytecode.decode bytes = .ok p) :
    build bytes = Kernel.compile p := by
  unfold build
  rw [h]
  rfl

/-- **After any run the cache is transparent and within its bounds.**  A lookup answers with the kernel that its bytes
decode and compile to, or with the fault of the one or the other; there are never more kernels than there is room for,
nor two of the same bytes; and a lookup that fails leaves the cache as it was, the order of its entries included. -/
theorem fetch_eq_decode_compile (capacity : Nat) (calls : List Call) :
    let c := (Session.run capacity calls).cache
    c.size ≤ capacity ∧ (c.entries.map Prod.fst).Nodup ∧ ∀ bytes,
      (∀ p k, Bytecode.decode bytes = .ok p → Kernel.compile p = .ok k →
        ∃ origin, (c.fetch bytes).1 = .ok (origin, k)) ∧
      (∀ p fault, Bytecode.decode bytes = .ok p → Kernel.compile p = .error fault →
        (c.fetch bytes).1 = .error fault) ∧
      (∀ fault, Bytecode.decode bytes = .error fault → (c.fetch bytes).1 = .error (.malformed fault)) ∧
      ∀ fault, (c.fetch bytes).1 = .error fault → (c.fetch bytes).2 = c := by
  intro c
  have hv := Session.valid_run capacity calls
  have hkeys : c.entries.map Prod.fst = (recency (Session.run capacity calls).events).take capacity := hv.keys_eq
  refine ⟨?_, ?_, fun bytes => ⟨fun p k hp hk => ?_, fun p fault hp hk => ?_, fun fault hp => ?_, fun fault hf => ?_⟩⟩
  · have hlen : c.size = (c.entries.map Prod.fst).length := (List.length_map ..).symm
    rw [hlen, hkeys]
    exact List.length_take_le ..
  · rw [hkeys]
    exact (nodup_recency _).sublist (List.take_sublist ..)
  · rw [hv.faithful.fetch_ok ((build_of_decode_ok hp).trans hk)]
    exact ⟨_, rfl⟩
  · rw [hv.faithful.fetch_error ((build_of_decode_ok hp).trans hk)]
  · rw [hv.faithful.fetch_error (build_of_decode_error hp)]
  · cases hb : build bytes with
    | error fault => rw [hv.faithful.fetch_error hb]
    | ok k =>
      rw [hv.faithful.fetch_ok hb] at hf
      cases hf

/-! ## Hits -/

/-- The bytes were looked up with success and not cleared since, and since the last such lookup fewer than `capacity`
different byte strings were. -/
def UsedLately (capacity : Nat) (events : List Event) (bytes : List UInt8) : Prop :=
  ∃ earlier found later, events = earlier ++ .fetched bytes (.ok found) :: later ∧ .cleared ∉ later ∧
    bytes ∉ successes later ∧ (successes later).toFinset.card < capacity

theorem mem_take_append_cons {α : Type} {a : α} {l₁ l₂ : List α} (h : a ∉ l₁) (n : Nat) :
    a ∈ (l₁ ++ a :: l₂).take n ↔ l₁.length < n := by
  constructor
  · intro hm
    by_contra hn
    rw [List.take_append_of_le_length (Nat.not_lt.1 hn)] at hm
    exact h (List.mem_of_mem_take hm)
  · intro hn
    rw [List.take_append, List.mem_append]
    obtain ⟨m, hm⟩ := Nat.exists_eq_add_of_lt hn
    refine .inr ?_
    rw [hm, show l₁.length + m + 1 - l₁.length = m + 1 by omega, List.take_succ_cons]
    exact List.mem_cons_self

theorem recency_append_fetched (earlier : List Event) {bytes : List UInt8} (found : KernelOrigin × Kernel)
    {later : List Event} (hc : .cleared ∉ later) (hl : bytes ∉ successes later) :
    ∃ rest, recency (earlier ++ .fetched bytes (.ok found) :: later) = recency later ++ bytes :: rest := by
  unfold recency
  rw [List.foldl_append, List.foldl_cons, foldl_note _ hc, note, List.filter_cons_of_pos (by simpa using hl)]
  exact ⟨_, rfl⟩

theorem mem_take_recency_iff {capacity : Nat} {events : List Event} {bytes : List UInt8} :
    bytes ∈ (recency events).take capacity ↔ UsedLately capacity events bytes := by
  have hroom : ∀ earlier found {later}, .cleared ∉ later → bytes ∉ successes later →
      (bytes ∈ (recency (earlier ++ .fetched bytes (.ok found) :: later)).take capacity ↔
        (successes later).toFinset.card < capacity) := by
    intro earlier found later hc hl
    obtain ⟨rest, hr⟩ := recency_append_fetched earlier found hc hl
    rw [hr, mem_take_append_cons fun hm => hl ((mem_recency hc).1 hm), length_recency hc]
  constructor
  · intro h
    obtain ⟨earlier, found, later, rfl, hc, hl⟩ := exists_last_fetch (List.mem_of_mem_take h)
    exact ⟨earlier, found, later, rfl, hc, hl, (hroom earlier found hc hl).1 h⟩
  · rintro ⟨earlier, found, later, rfl, hc, hl, hn⟩
    exact (hroom earlier found hc hl).2 hn

/-- **After any run a lookup is answered from memory exactly when its bytes were used lately**, and otherwise, if it
succeeds, by compiling. -/
theorem fetch_memory_iff_usedLately (capacity : Nat) (calls : List Call) (bytes : List UInt8) :
    let s := Session.run capacity calls
    ((∃ k, (s.cache.fetch bytes).1 = .ok (.memory, k)) ↔ UsedLately capacity s.events bytes) ∧
    ((∃ k, (s.cache.fetch bytes).1 = .ok (.compiled, k)) ↔
      (∃ found, (s.cache.fetch bytes).1 = .ok found) ∧ ¬ UsedLately capacity s.events bytes) := by
  intro s
  have hv : s.Valid capacity := Session.valid_run capacity calls
  rw [← mem_take_recency_iff, ← hv.keys_eq]
  cases hb : build bytes with
  | ok k =>
    rw [hv.faithful.fetch_ok hb]
    by_cases hm : bytes ∈ s.cache.keys
    · simp [hm]
    · simp [hm]
  | error fault =>
    -- what cannot be built is not in a faithful cache
    have hm : bytes ∉ s.cache.keys := by
      intro hm
      obtain ⟨e, he, rfl⟩ := List.mem_map.1 hm
      cases (hv.faithful e he).symm.trans hb
    rw [hv.faithful.fetch_error hb]
    simp [hm]

-- room for two: the first is used again before the third comes, so the second goes; a lookup that fails does nothing
example :
    let nops (n : Nat) := Bytecode.bytesOfWords (0xffff0200 :: List.replicate n 0)
    let c := (Session.run 2 [.fetch (nops 1), .fetch (nops 2), .fetch (nops 1), .fetch [], .fetch (nops 3)]).cache
    ((c.fetch (nops 1)).1.map Prod.fst, (c.fetch (nops 2)).1.map Prod.fst) = (.ok .memory, .ok .compiled) := by
  decide +kernel

end PixelShader.KernelCache
