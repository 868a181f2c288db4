import Mathlib
import PixelShader.Proofs.Rendering
/-!
# Bindings answer from the calls that made them

Bindings are made by calls, some of which are refused.  What they answer afterwards is told by the calls alone: a
constant or a sampler is what the last call set for its index, and the output is what the last call made of it
(`latest`).  The table of samplers grows as calls need it, and growing changes no answer (`get_grown`).  Each call
replaces what it tells of and leaves all else (`get?_perform`, `get_perform`, `output_perform`), and by one induction
the same holds of all calls (`view_made`).
-/
namespace PixelShader

/-! ## The table of constants -/

namespace ConstantTable

theorem lookup_cons_eq (i j : UInt32) (v : Quad) (l : List (UInt32 × Quad)) :
    ((j, v) :: l).lookup i = if i = j then some v else l.lookup i := by
  rw [List.lookup_cons]
  by_cases h : i = j
  · simp [h]
  · rw [beq_false_of_ne h, if_neg h]

theorem lookup_place (index : UInt32) (value : Quad) (i : UInt32) : ∀ l : List (UInt32 × Quad),
    (place index value l).lookup i = if i = index then some value else l.lookup i
  | [] => lookup_cons_eq i index value []
  | (j, v) :: l => by
    unfold place
    split
    · exact lookup_cons_eq i index value _
    · split
      · rename_i hj
        obtain rfl : index = j := hj
        rw [lookup_cons_eq, lookup_cons_eq]
        by_cases hi : i = index
        · rw [if_pos hi, if_pos hi]
        · rw [if_neg hi, if_neg hi, if_neg hi]
      · rename_i hj
        rw [lookup_cons_eq, lookup_cons_eq, lookup_place index value i l]
        by_cases hi : i = index
        · rw [if_pos hi, if_pos hi, if_neg fun h => hj (hi.symm.trans h)]
        · rw [if_neg hi, if_neg hi]

theorem mem_place {index : UInt32} {value : Quad} {e : UInt32 × Quad} : ∀ {l : List (UInt32 × Quad)},
    e ∈ place index value l → e = (index, value) ∨ e ∈ l
  | [], h => .inl (List.mem_singleton.1 h)
  | f :: l, h => by
    unfold place at h
    split at h
    · exact List.mem_cons.1 h
    · split at h
      · exact (List.mem_cons.1 h).imp_right (List.mem_cons_of_mem f)
      · rcases List.mem_cons.1 h with rfl | h
        · exact .inr List.mem_cons_self
        · exact (mem_place h).imp_right (List.mem_cons_of_mem f)

def Ascending (l : List (UInt32 × Quad)) : Prop := l.Pairwise fun a b => a.1 < b.1

theorem Ascending.place {index : UInt32} {value : Quad} : ∀ {l : List (UInt32 × Quad)}, Ascending l →
    Ascending (place index value l)
  | [], _ => List.pairwise_singleton _ _
  | e :: l, h => by
    obtain ⟨he, hl⟩ := List.pairwise_cons.1 h
    unfold ConstantTable.place
    split
    · rename_i hlt
      refine List.pairwise_cons.2 ⟨fun f hf => ?_, h⟩
      rcases List.mem_cons.1 hf with rfl | hf
      · exact hlt
      · exact UInt32.lt_trans hlt (he f hf)
    · rename_i hnlt
      split
      · rename_i heq
        refine List.pairwise_cons.2 ⟨fun f hf => ?_, hl⟩
        rw [heq]
        exact he f hf
      · rename_i hne
        refine List.pairwise_cons.2 ⟨fun f hf => ?_, Ascending.place hl⟩
        rcases mem_place hf with rfl | hf
        · exact UInt32.lt_of_le_of_ne (UInt32.not_lt.1 hnlt) (Ne.symm hne)
        · exact he f hf

theorem Ascending.mem_iff_lookup {l : List (UInt32 × Quad)} (h : Ascending l) {i : UInt32} {v : Quad} :
    (i, v) ∈ l ↔ l.lookup i = some v := by
  rw [List.lookup_eq_some_iff]
  constructor
  · intro hm
    obtain ⟨l₁, l₂, rfl⟩ := List.append_of_mem hm
    refine ⟨l₁, l₂, rfl, fun e he => bne_iff_ne.2 ?_⟩
    have hlt : e.1 < i := (List.pairwise_append.1 h).2.2 e he (i, v) List.mem_cons_self
    exact (UInt32.ne_of_lt hlt).symm
  · rintro ⟨l₁, l₂, rfl, -⟩
    exact List.mem_append_right _ List.mem_cons_self

end ConstantTable

/-! ## The table of samplers -/

namespace SamplerBank

theorem get_grown (t : SamplerBank) (slot s : Slot) : (t.grown slot)[s.val]?.join = t.get s := by
  unfold grown get
  split
  · rw [Array.getElem?_append]
    split
    · rfl
    · rename_i hs
      rw [Array.getElem?_eq_none (Nat.not_lt.1 hs), Array.getElem?_replicate]
      split <;> rfl
  · rfl

theorem get_set (t : SamplerBank) (slot : Slot) (x : Sampler) (s : Slot) :
    (t.set slot x).get s = if slot = s then some x else t.get s := by
  show ((t.grown slot).set slot.val (some x) (t.lt_size_grown slot))[s.val]?.join = _
  rw [Array.getElem?_set]
  by_cases h : slot = s
  · rw [if_pos h, if_pos (congrArg Fin.val h)]
    rfl
  · rw [if_neg h, if_neg fun hv => h (Fin.ext hv)]
    exact t.get_grown slot s

end SamplerBank

/-! ## Slots -/

theorem SlotTable.check_sampler_error {i : UInt32} (h : ¬ i.toNat < registerSlots) :
    SlotTable.sampler.check i = .error (.slotOutOfRange .sampler i) := dif_neg h

theorem SlotTable.check_output : SlotTable.output.check 0 = .ok ⟨0, by decide⟩ := rfl

theorem SlotTable.check_output_error {i : UInt32} (h : i ≠ 0) :
    SlotTable.output.check i = .error (.slotOutOfRange .output i) := by
  refine dif_neg fun hlt => h ?_
  have hz : i.toNat = 0 := Nat.lt_one_iff.1 hlt
  exact UInt32.toNat_inj.1 hz

theorem Bindings.outputAt_eq (b : Bindings) (i : UInt32) :
    b.outputAt i = if i = 0 then b.output.elim (.error (.unboundOutput i)) .ok
      else .error (.slotOutOfRange .output i) := by
  unfold outputAt
  by_cases h : i = 0
  · rw [if_pos h, h, SlotTable.check_output]
    cases b.output <;> rfl
  · rw [if_neg h, SlotTable.check_output_error h]
    rfl

/-! ## What each call does -/

namespace Binder

theorem perform_setSampler (i : UInt32) (x : Sampler) (b : Bindings) :
    (setSampler i x).perform b = if h : i.toNat < registerSlots
      then (.ok (), { b with samplers := b.samplers.set ⟨i.toNat, h⟩ x })
      else (.error (.slotOutOfRange .sampler i), b) := by
  unfold setSampler
  by_cases h : i.toNat < registerSlots
  · rw [dif_pos h, SlotTable.check_sampler h]
    rfl
  · rw [dif_neg h, SlotTable.check_sampler_error h]
    rfl

theorem perform_setOutput (i : UInt32) (image : Image) (b : Bindings) :
    (setOutput i image).perform b = if i = 0 then (.ok (), { b with output := some image })
      else (.error (.slotOutOfRange .output i), b) := by
  unfold setOutput
  by_cases h : i = 0
  · rw [if_pos h, h, SlotTable.check_output]
    rfl
  · rw [if_neg h, SlotTable.check_output_error h]
    rfl

theorem perform_takeOutput (i : UInt32) (b : Bindings) :
    (takeOutput i).perform b = (b.outputAt i, if i = 0 then { b with output := none } else b) := by
  unfold takeOutput
  by_cases h : i = 0
  · rw [if_pos h, Bindings.outputAt_eq, if_pos h, h, SlotTable.check_output]
    obtain ⟨constants, samplers, output⟩ := b
    cases output <;> rfl
  · rw [if_neg h, Bindings.outputAt_eq, if_neg h, SlotTable.check_output_error h]
    rfl

theorem perform_bind_of_ok {α β : Type} {call : Binder α} {next : α → Binder β} {b b' : Bindings} {a : α}
    (h : call.perform b = (.ok a, b')) : (call >>= next).perform b = (next a).perform b' := by
  have hbind : (call >>= next).run b = EStateM.bind call next b := rfl
  unfold perform at h ⊢
  rw [hbind, EStateM.bind]
  rw [EStateM.run] at h
  cases hc : call b with
  | error fault b₁ =>
    rw [hc] at h
    cases h
  | ok a₁ b₁ =>
    rw [hc] at h
    cases h
    rfl

theorem perform_map {α β : Type} (f : α → β) (call : Binder α) (b : Bindings) :
    (f <$> call).perform b = ((call.perform b).1.map f, (call.perform b).2) := by
  have hmap : (f <$> call).run b = EStateM.map f call b := rfl
  unfold perform
  rw [hmap, EStateM.map, EStateM.run]
  cases call b <;> rfl

end Binder

namespace Bindings

/-! ## Calls -/

inductive Call where
  | setConstant (index : UInt32) (value : Quad)
  | setSampler (index : UInt32) (sampler : Sampler)
  | setOutput (index : UInt32) (image : Image)
  | takeOutput (index : UInt32)

def Call.binder : Call → Binder (Option Image)
  | .setConstant index value => (fun _ => none) <$> Binder.setConstant index value
  | .setSampler index s => (fun _ => none) <$> Binder.setSampler index s
  | .setOutput index image => (fun _ => none) <$> Binder.setOutput index image
  | .takeOutput index => some <$> Binder.takeOutput index

def perform (b : Bindings) (call : Call) : Except BindingFault (Option Image) × Bindings := call.binder.perform b

def made (calls : List Call) : Bindings := calls.foldl (fun b call => (b.perform call).2) {}

theorem perform_setSampler (b : Bindings) (i : UInt32) (x : Sampler) :
    b.perform (.setSampler i x) = if h : i.toNat < registerSlots
      then (.ok none, { b with samplers := b.samplers.set ⟨i.toNat, h⟩ x })
      else (.error (.slotOutOfRange .sampler i), b) := by
  show ((fun _ => none) <$> Binder.setSampler i x).perform b = _
  rw [Binder.perform_map, Binder.perform_setSampler]
  split <;> rfl

theorem perform_setOutput (b : Bindings) (i : UInt32) (image : Image) :
    b.perform (.setOutput i image) = if i = 0 then (.ok none, { b with output := some image })
      else (.error (.slotOutOfRange .output i), b) := by
  show ((fun _ => none) <$> Binder.setOutput i image).perform b = _
  rw [Binder.perform_map, Binder.perform_setOutput]
  split <;> rfl

theorem perform_takeOutput (b : Bindings) (i : UInt32) :
    b.perform (.takeOutput i) = ((b.outputAt i).map some, if i = 0 then { b with output := none } else b) := by
  show (some <$> Binder.takeOutput i).perform b = _
  rw [Binder.perform_map, Binder.perform_takeOutput]

theorem perform_error {b : Bindings} {call : Call} {fault : BindingFault} (h : (b.perform call).1 = .error fault) :
    (b.perform call).2 = b := by
  cases call with
  | setConstant i v => cases h
  | setSampler i x =>
    rw [perform_setSampler] at h ⊢
    split at h
    · cases h
    · rename_i hi
      rw [dif_neg hi]
  | setOutput i image =>
    rw [perform_setOutput] at h ⊢
    split at h
    · cases h
    · rename_i hi
      rw [if_neg hi]
  | takeOutput i =>
    rw [perform_takeOutput] at h ⊢
    obtain ⟨constants, samplers, output⟩ := b
    -- the output is unbound before it is looked at: what is refused had none to unbind
    by_cases hi : i = 0
    · rw [if_pos hi]
      cases output with
      | none => rfl
      | some image =>
        rw [outputAt_eq, if_pos hi] at h
        cases h
    · rw [if_neg hi]

/-! ## What the calls tell

A call tells what it sets for an index; of the output it tells that there is a new one, or that there is none. -/

def Call.constant? (index : UInt32) : Call → Option Quad
  | .setConstant i value => if i = index then some value else none
  | _ => none

def Call.sampler? (index : UInt32) : Call → Option Sampler
  | .setSampler i s => if i = index then some s else none
  | _ => none

def Call.output? : Call → Option (Option Image)
  | .setOutput i image => if i = 0 then some (some image) else none
  | .takeOutput i => if i = 0 then some none else none
  | _ => none

/-- What the last of the calls that tell something tells. -/
def latest {β : Type} (tells : Call → Option β) (calls : List Call) : Option β := calls.reverse.findSome? tells

theorem latest_append {β : Type} (tells : Call → Option β) (calls more : List Call) :
    latest tells (calls ++ more) = (latest tells more).or (latest tells calls) := by
  unfold latest
  rw [List.reverse_append, List.findSome?_append]

theorem latest_concat {β : Type} (tells : Call → Option β) (calls : List Call) (call : Call) :
    latest tells (calls ++ [call]) = (tells call).or (latest tells calls) := by
  rw [latest_append, latest, List.reverse_singleton, List.findSome?_singleton]

/-! ## What is bound, call by call -/

theorem get?_perform (b : Bindings) (call : Call) (i : UInt32) :
    (b.perform call).2.constants.get? i = ((call.constant? i).map some).getD (b.constants.get? i) := by
  cases call with
  | setConstant j v =>
    show (ConstantTable.place j v b.constants.entries).lookup i = _
    rw [ConstantTable.lookup_place]
    by_cases h : j = i
    · simp [Call.constant?, h]
    · simp [Call.constant?, h, Ne.symm h, ConstantTable.get?]
  | setSampler j x => rw [perform_setSampler]; split <;> rfl
  | setOutput j image => rw [perform_setOutput]; split <;> rfl
  | takeOutput j => rw [perform_takeOutput]; dsimp only; split <;> rfl

theorem ascending_perform {b : Bindings} (h : ConstantTable.Ascending b.constants.entries) (call : Call) :
    ConstantTable.Ascending (b.perform call).2.constants.entries := by
  cases call with
  | setConstant j v => exact h.place
  | setSampler j x => rw [perform_setSampler]; split <;> exact h
  | setOutput j image => rw [perform_setOutput]; split <;> exact h
  | takeOutput j => rw [perform_takeOutput]; dsimp only; split <;> exact h

theorem get_perform (b : Bindings) (call : Call) (s : Slot) :
    (b.perform call).2.samplers.get s = ((call.sampler? (UInt32.ofNat s)).map some).getD (b.samplers.get s) := by
  cases call with
  | setConstant j v => rfl
  | setSampler j x =>
    rw [perform_setSampler]
    -- the slot is set, or another one is, or none: then the call is refused
    by_cases hs : j = UInt32.ofNat s
    · have hj : j.toNat = s.val := by rw [hs, toNat_slot]
      have hlt : j.toNat < registerSlots := hj ▸ s.isLt
      rw [dif_pos hlt]
      dsimp only
      rw [SamplerBank.get_set, if_pos (Fin.ext hj)]
      simp [Call.sampler?, hs]
    · have hj : j.toNat ≠ s.val := fun hj => hs (by rw [← hj, UInt32.ofNat_toNat])
      have ht : ((Call.setSampler j x).sampler? (UInt32.ofNat s)).map some = none := by simp [Call.sampler?, hs]
      rw [ht]
      split
      · dsimp only
        rw [SamplerBank.get_set, if_neg fun h => hj (congrArg Fin.val h)]
        rfl
      · rfl
  | setOutput j image => rw [perform_setOutput]; split <;> rfl
  | takeOutput j => rw [perform_takeOutput]; dsimp only; split <;> rfl

theorem output_perform (b : Bindings) (call : Call) :
    (b.perform call).2.output = (call.output?.map id).getD b.output := by
  cases call with
  | setConstant j v => rfl
  | setSampler j x => rw [perform_setSampler]; split <;> rfl
  | setOutput j image =>
    rw [perform_setOutput]
    by_cases h : j = 0 <;> simp [Call.output?, h]
  | takeOutput j =>
    rw [perform_takeOutput]
    by_cases h : j = 0 <;> simp [Call.output?, h]

/-! ## What is bound, over all calls -/

theorem made_concat (calls : List Call) (call : Call) : made (calls ++ [call]) = ((made calls).perform call).2 :=
  List.foldl_concat ..

/-- What each call replaces by what it tells, and else leaves, is what the last one told. -/
theorem view_made {β γ : Type} (view : Bindings → γ) {tells : Call → Option β} {put : β → γ}
    (h : ∀ b call, view (b.perform call).2 = ((tells call).map put).getD (view b)) (calls : List Call) :
    view (made calls) = ((latest tells calls).map put).getD (view {}) := by
  induction calls using List.reverseRecOn with
  | nil => rfl
  | append_singleton calls call ih =>
    rw [made_concat, h, latest_concat, ih]
    cases tells call <;> rfl

theorem get?_made (calls : List Call) (i : UInt32) :
    (made calls).constants.get? i = latest (Call.constant? i) calls := by
  rw [view_made (fun b => b.constants.get? i) (fun b call => get?_perform b call i) calls]
  cases latest (Call.constant? i) calls <;> rfl

theorem ascending_made (calls : List Call) : ConstantTable.Ascending (made calls).constants.entries := by
  induction calls using List.reverseRecOn with
  | nil => exact List.Pairwise.nil
  | append_singleton calls call ih =>
    rw [made_concat]
    exact ascending_perform ih call

theorem get_made (calls : List Call) (s : Slot) :
    (made calls).samplers.get s = latest (Call.sampler? (UInt32.ofNat s)) calls := by
  rw [view_made (fun b => b.samplers.get s) (fun b call => get_perform b call s) calls]
  have hnew : ({} : Bindings).samplers.get s = none := by simp [SamplerBank.get]
  rw [hnew]
  cases latest (Call.sampler? (UInt32.ofNat s)) calls <;> rfl

theorem output_made (calls : List Call) : (made calls).output = (latest Call.output? calls).getD none := by
  rw [view_made Bindings.output output_perform calls, Option.map_id_fun, id]

theorem sampler_made (calls : List Call) (i : UInt32) :
    (made calls).sampler i = if i.toNat < 32
      then (latest (Call.sampler? i) calls).elim (.error (.unboundSampler i)) .ok
      else .error (.slotOutOfRange .sampler i) := by
  by_cases h : i.toNat < 32
  · have hs := sampler_ofNat (made calls) ⟨i.toNat, h⟩
    rw [samplerAt_of_get, get_made, UInt32.ofNat_toNat] at hs
    rw [if_pos h, hs]
    cases latest (Call.sampler? i) calls <;> rfl
  · rw [if_neg h]
    show Except.bind (SlotTable.sampler.check i) _ = _
    rw [SlotTable.check_sampler_error h]
    rfl

/-- **Bindings are three partial maps, kept up to date by the calls.**  After any calls, refused ones among them, a
constant is the last value set for its index and the constants are listed by ascending index; a sampler is the last one
set in its slot; the output is the last one set, unless it was taken since.  What is not there, or is not a slot, is
told as such, and a call that is refused changes nothing. -/
theorem made_answers_latest (calls : List Call) :
    let b := made calls
    (∀ i, b.constant i = (latest (Call.constant? i) calls).elim (.error (.missingConstant i)) .ok ∧
      b.constantOrZero i = (latest (Call.constant? i) calls).getD .zero) ∧
    (b.constants.entries.map Prod.fst).Pairwise (· < ·) ∧
    (∀ i v, (i, v) ∈ b.constants.entries ↔ latest (Call.constant? i) calls = some v) ∧
    (∀ i, b.sampler i = if i.toNat < 32
      then (latest (Call.sampler? i) calls).elim (.error (.unboundSampler i)) .ok
      else .error (.slotOutOfRange .sampler i)) ∧
    (∀ i x, (b.perform (.setSampler i x)).1 = if i.toNat < 32 then .ok none
      else .error (.slotOutOfRange .sampler i)) ∧
    (∀ i, b.outputAt i = (if i = 0
        then ((latest Call.output? calls).getD none).elim (.error (.unboundOutput i)) .ok
        else .error (.slotOutOfRange .output i)) ∧
      (b.perform (.takeOutput i)).1 = (b.outputAt i).map some) ∧
    (∀ i image, (b.perform (.setOutput i image)).1 = if i = 0 then .ok none
      else .error (.slotOutOfRange .output i)) ∧
    ∀ call fault, (b.perform call).1 = .error fault → (b.perform call).2 = b := by
  intro b
  refine ⟨fun i => ⟨?_, ?_⟩, ?_, fun i v => ?_, sampler_made calls, fun i x => ?_, fun i => ⟨?_, ?_⟩, fun i image => ?_,
    fun call fault => perform_error⟩
  · unfold constant
    rw [get?_made]
    cases latest (Call.constant? i) calls <;> rfl
  · unfold constantOrZero ConstantTable.getOrZero
    rw [get?_made]
  · exact List.pairwise_map.2 (ascending_made calls)
  · rw [(ascending_made calls).mem_iff_lookup, ← get?_made]
    rfl
  · rw [perform_setSampler]
    by_cases h : i.toNat < 32
    · rw [if_pos h, dif_pos h]
    · rw [if_neg h, dif_neg h]
  · rw [outputAt_eq, output_made]
  · rw [perform_takeOutput]
  · rw [perform_setOutput]
    split <;> rfl

end Bindings
end PixelShader
