import Mathlib
import PixelShader.CommandLine.Run
import PixelShader.Proofs.Bindings
import PixelShader.Proofs.Supported
/-!
# The settings of a command line, in their order

A scan keeps a value back until the next argument settles it, and keeps single values and pairs in lists of their own.
Neither shows in what it collects: the lists are those of the settings as they stand on the command line
(`holds_of_readOptions`).  Each argument adds to what is collected or held back what it adds to the settings
(`Scan.Given.argument`), and so do all of them (`Scan.Given.foldlM`).  A constant is then the last pair for its index,
or else the last single value, wherever the two stand (`Options.Holds.latest_constant`).
-/
namespace PixelShader.CommandLine

/-! ## The settings of arguments -/

/-- The setting that a cluster of short names ends in, if it has one: with the value that stands right behind its
letter, or as one that waits for its value. -/
def clusterSettings : List Char → List (Setting × String) × Option Setting
  | [] => ([], none)
  | c :: rest =>
    match Setting.ofLetter? c with
    | none => clusterSettings rest
    | some g =>
      match rest with
      | [] => ([], some g)
      | '=' :: value => ([(g, String.ofList value)], none)
      | value => ([(g, String.ofList value)], none)

/-- The settings with their values, in order.  A setting that waits for its value takes the next argument, unless that
is an option. -/
def settingsFrom (awaited : Option Setting) : List String → List (Setting × String)
  | [] => []
  | a :: rest =>
    match a.toList with
    | ['-', '-'] => []
    | '-' :: '-' :: _ => settingsFrom none rest
    | '-' :: c :: cs => (clusterSettings (c :: cs)).1 ++ settingsFrom (clusterSettings (c :: cs)).2 rest
    | _ => (awaited.map (·, a)).toList ++ settingsFrom none rest

def settings (arguments : List String) : List (Setting × String) := settingsFrom none arguments

def scalarsOf (l : List (Setting × String)) : List (UInt32 × Lane) :=
  l.filterMap fun e => if e.1 = .scalar then (readScalar e.2.toList).toOption else none

def pairsOf (l : List (Setting × String)) : List (UInt32 × Lane × Lane) :=
  l.filterMap fun e => if e.1 = .pair then (readPair e.2.toList).toOption else none

/-- The constant that settings give to an index: the last pair for it, or else the last single value. -/
def constantOf (l : List (Setting × String)) (index : UInt32) : Option Quad :=
  match (pairsOf l).reverse.lookup index with
  | some (a, b) => some ⟨a, b, .zero, .zero⟩
  | none => ((scalarsOf l).reverse.lookup index).map fun a => ⟨a, a, a, a⟩

example : settings ["-c0=1", "-ip", "1=2,3", "s.bin", "--trace", "-dc=2=4", "--", "-c", "5=6"] =
    [(.scalar, "0=1"), (.pair, "1=2,3"), (.scalar, "2=4")] := by decide +kernel

/-! ## Collected settings -/

/-- The options have collected the settings. -/
structure Options.Holds (o : Options) (l : List (Setting × String)) : Prop where
  scalars : o.scalars = scalarsOf l
  pairs : o.pairs = pairsOf l

section
variable {o o' : Options} {l : List (Setting × String)}

theorem Options.Holds.set {g : Setting} {value : String} (h : o.Holds l) (hs : o.set g value = .ok o') :
    o'.Holds (l ++ [(g, value)]) := by
  unfold Options.set at hs
  cases g with
  | scalar =>
    cases hr : readScalar value.toList with
    | error cause => simp [hr] at hs
    | ok constant =>
      simp only [hr, Except.ok.injEq] at hs
      subst hs
      exact ⟨by simp [scalarsOf, hr, h.scalars, Except.toOption], by simp [pairsOf, h.pairs]⟩
  | pair =>
    cases hr : readPair value.toList with
    | error cause => simp [hr] at hs
    | ok constant =>
      simp only [hr, Except.ok.injEq] at hs
      subst hs
      exact ⟨by simp [scalarsOf, h.scalars], by simp [pairsOf, hr, h.pairs, Except.toOption]⟩

theorem Options.Holds.switch {w : Switch} (h : o.Holds l) (hs : o.switch w = .ok o') : o'.Holds l := by
  unfold Options.switch at hs
  split at hs
  · cases hs
  · cases hs
    exact ⟨h.scalars, h.pairs⟩

theorem Options.Holds.put {p : Place} {value : String} (h : o.Holds l) (hs : o.put p value = .ok o') : o'.Holds l := by
  unfold Options.put at hs
  split at hs
  · cases hs
  · cases p <;> cases hs <;> exact ⟨h.scalars, h.pairs⟩

end

namespace Scan

def awaited (s : Scan) : Option Setting :=
  match s.pending with
  | some (.setting g none) => some g
  | _ => none

def held (s : Scan) : List (Setting × String) :=
  match s.pending with
  | some (.setting g (some value)) => [(g, value)]
  | _ => []

def ahead (s : Scan) (rest : List String) : List (Setting × String) :=
  if s.literal then [] else settingsFrom s.awaited rest

/-- The settings are collected, but for one that may be held back. -/
def Given (s : Scan) (l : List (Setting × String)) : Prop := ∃ m, l = m ++ s.held ∧ s.options.Holds m

structure Settled (s : Scan) (l : List (Setting × String)) : Prop where
  pending : s.pending = none
  holds : s.options.Holds l

section
variable {s s' : Scan} {l : List (Setting × String)}

theorem Settled.given (h : s.Settled l) : s.Given l := ⟨l, by simp [held, h.pending], h.holds⟩

theorem Settled.awaited (h : s.Settled l) : s.awaited = none := by simp [Scan.awaited, h.pending]

theorem Settled.set {g : Setting} {value : String} {o : Options} (h : s.Settled l)
    (ho : s.options.set g value = .ok o) : ({ s with options := o } : Scan).Settled (l ++ [(g, value)]) :=
  ⟨h.pending, h.holds.set ho⟩

theorem Given.settle (h : s.Given l) (hs : s.settle = .ok s') : s'.Settled l ∧ s'.literal = s.literal := by
  obtain ⟨m, rfl, hm⟩ := h
  unfold Scan.settle at hs
  cases hp : s.pending with
  | none =>
    simp only [hp, Except.ok.injEq] at hs
    subst hs
    exact ⟨⟨hp, by simpa [held, hp] using hm⟩, rfl⟩
  | some pending =>
    cases pending with
    | setting g value =>
      cases value with
      | none => simp [hp] at hs
      | some value =>
        simp only [hp] at hs
        obtain ⟨o, ho, hs⟩ := except_bind_eq_ok.1 hs
        cases hs
        exact ⟨⟨rfl, by simpa [held, hp] using hm.set ho⟩, rfl⟩
    | place p value =>
      simp only [hp] at hs
      obtain ⟨o, ho, hs⟩ := except_bind_eq_ok.1 hs
      cases hs
      exact ⟨⟨rfl, by simpa [held, hp] using hm.put ho⟩, rfl⟩

theorem Given.switch {w : Switch} (h : s.Given l) (hs : s.switch w = .ok s') :
    s'.Settled l ∧ s'.literal = s.literal := by
  obtain ⟨t, ht, hs⟩ := except_bind_eq_ok.1 hs
  obtain ⟨o, ho, hs⟩ := except_bind_eq_ok.1 hs
  obtain ⟨hst, hlit⟩ := h.settle ht
  cases hs
  exact ⟨⟨hst.pending, hst.holds.switch ho⟩, hlit⟩

theorem help_ne_ok : s.help ≠ .ok s' := by
  intro h
  obtain ⟨_, -, h⟩ := except_bind_eq_ok.1 h
  cases h

theorem settingOfLetter?_of_switch {c : Char} {w : Switch} (h : Switch.ofLetter? c = some w) :
    Setting.ofLetter? c = none := by
  unfold Switch.ofLetter? at h
  split at h
  · rfl
  · rfl
  · rfl
  · cases h

theorem Given.cluster {cs : List Char} (h : s.Given l) (hcs : cs ≠ [] ∨ s.pending = none)
    (hs : s.cluster cs = .ok s') :
    s'.Given (l ++ (clusterSettings cs).1) ∧ s'.awaited = (clusterSettings cs).2 ∧ s'.literal = s.literal := by
  induction cs generalizing s with
  | nil =>
    obtain rfl : s = s' := Except.ok.inj hs
    have hp : s.pending = none := hcs.resolve_left (· rfl)
    exact ⟨by simpa [clusterSettings] using h, by simp [Scan.awaited, hp, clusterSettings], rfl⟩
  | cons c rest ih =>
    unfold Scan.cluster at hs
    cases hw : Switch.ofLetter? c with
    | some w =>
      simp only [hw] at hs
      obtain ⟨t, ht, hs⟩ := except_bind_eq_ok.1 hs
      obtain ⟨hst, hlit⟩ := h.switch ht
      rw [clusterSettings, settingOfLetter?_of_switch hw, ← hlit]
      exact ih hst.given (.inr hst.pending) hs
    | none =>
      cases hg : Setting.ofLetter? c with
      | none =>
        simp only [hw, hg] at hs
        split at hs
        · exact absurd hs help_ne_ok
        · cases hs
      | some g =>
        simp only [hw, hg] at hs
        obtain ⟨t, ht, hs⟩ := except_bind_eq_ok.1 hs
        obtain ⟨hst, hlit⟩ := h.settle ht
        rw [clusterSettings, hg]
        simp only
        -- The value is to come, stands behind an equals sign, or right behind the letter.
        split at hs
        · cases hs
          exact ⟨⟨l, by simp [held], hst.holds⟩, rfl, hlit⟩
        · obtain ⟨o, ho, hs⟩ := except_bind_eq_ok.1 hs
          cases hs
          exact ⟨(hst.set ho).given, (hst.set ho).awaited, hlit⟩
        · obtain ⟨o, ho, hs⟩ := except_bind_eq_ok.1 hs
          cases hs
          exact ⟨by simpa using (hst.set ho).given, by simpa using (hst.set ho).awaited, hlit⟩

theorem Given.long {cs : List Char} (h : s.Given l) (hs : s.long cs = .ok s') :
    s'.Settled l ∧ s'.literal = s.literal := by
  unfold Scan.long at hs
  cases hc : splitAt '=' cs with
  | none =>
    simp only [hc] at hs
    cases hw : Switch.ofName? (String.ofList cs) with
    | some w =>
      simp only [hw] at hs
      exact h.switch hs
    | none =>
      simp only [hw] at hs
      split at hs
      · exact absurd hs help_ne_ok
      · cases hs
  | some parts =>
    simp only [hc] at hs
    cases hw : Switch.ofName? (String.ofList parts.1) with
    | some w =>
      simp only [hw] at hs
      cases hs
    | none =>
      simp only [hw] at hs
      split at hs <;> cases hs

theorem Given.plain {a : String} (h : s.Given l) (hs : s.plain a = .ok s') :
    s'.Given (l ++ if s.literal then [] else (s.awaited.map (·, a)).toList) ∧ s'.awaited = none ∧
      s'.literal = s.literal := by
  unfold Scan.plain at hs
  split at hs
  · rename_i g hlit hp
    cases hs
    obtain ⟨m, rfl, hm⟩ := h
    exact ⟨⟨m, by simp [held, hp, hlit, Scan.awaited], hm⟩, rfl, rfl⟩
  · rename_i hno
    have hnone : (if s.literal then [] else (s.awaited.map (·, a)).toList) = [] := by
      split
      · rfl
      · rename_i hlit
        have haw : s.awaited = none := by
          unfold Scan.awaited
          split
          · rename_i g hp
            exact absurd hp (hno g (by simpa using hlit))
          · rfl
        rw [haw]
        rfl
    split at hs
    · cases hs
    · obtain ⟨t, ht, hs⟩ := except_bind_eq_ok.1 hs
      obtain ⟨hst, hlit⟩ := h.settle ht
      cases hs
      rw [hnone]
      exact ⟨⟨l, by simp [held], hst.holds⟩, rfl, hlit⟩

/-- **Each argument adds what it adds to the settings.** -/
theorem Given.argument {a : String} (h : s.Given l) (hs : s.argument a = .ok s') :
    ∃ m, s'.Given (l ++ m) ∧ ∀ rest, s.ahead (a :: rest) = m ++ s'.ahead rest := by
  unfold Scan.argument at hs
  split at hs
  · rename_i hlit ha
    cases hs
    refine ⟨[], ?_, fun rest => by simp [ahead, hlit, settingsFrom, ha]⟩
    rw [List.append_nil]
    exact h
  · rename_i cs hno hlit ha
    obtain ⟨hst, hlit'⟩ := h.long hs
    exact ⟨[], by simpa using hst.given, fun rest => by simp [ahead, hlit', hlit, settingsFrom, ha, hst.awaited]⟩
  · rename_i hlit ha
    obtain ⟨hg, haw, hlit'⟩ := h.cluster (.inl (List.cons_ne_nil _ _)) hs
    exact ⟨_, hg, fun rest => by simp [ahead, hlit', hlit, settingsFrom, ha, haw]⟩
  · rename_i hends hlong hshort
    obtain ⟨hg, haw, hlit'⟩ := h.plain hs
    refine ⟨_, hg, fun rest => ?_⟩
    unfold ahead
    rw [hlit', haw]
    cases hlit : s.literal with
    | true => rfl
    | false =>
      rw [if_neg Bool.false_ne_true, if_neg Bool.false_ne_true, if_neg Bool.false_ne_true, settingsFrom]
      split
      · exact (hends hlit ‹_›).elim
      · exact (hlong _ hlit ‹_›).elim
      · exact (hshort _ _ hlit ‹_›).elim
      · rfl

/-- **All arguments add the settings that are ahead.** -/
theorem Given.foldlM {arguments : List String} (h : s.Given l) (hs : arguments.foldlM Scan.argument s = .ok s') :
    s'.Given (l ++ s.ahead arguments) := by
  induction arguments generalizing s l with
  | nil =>
    obtain rfl : s = s' := Except.ok.inj hs
    simpa [ahead, settingsFrom] using h
  | cons a rest ih =>
    rw [List.foldlM_cons] at hs
    obtain ⟨t, ht, hs⟩ := except_bind_eq_ok.1 hs
    obtain ⟨m, hm, hahead⟩ := h.argument ht
    rw [hahead, ← List.append_assoc]
    exact ih hm hs

end
end Scan

/-! ## What is asked for -/

/-- **The options collect the settings of the command line in their order.** -/
theorem holds_of_readOptions {arguments : List String} {o : Options} (h : readOptions arguments = .ok o) :
    o.Holds (settings arguments) := by
  obtain ⟨s, hs, h⟩ := except_bind_eq_ok.1 h
  obtain ⟨s', hs', h⟩ := except_bind_eq_ok.1 h
  cases h
  have hg : Scan.Given {} [] := ⟨[], rfl, rfl, rfl⟩
  exact ((hg.foldlM hs).settle hs').1.holds

namespace Options

theorem request_eq_render {o : Options} {shader : String} {t : RenderTask} :
    o.request = .ok ⟨shader, .render t⟩ ↔ o.has .dump = false ∧ o.shader = some shader ∧
      ∃ input output, o.input = some input ∧ o.output = some output ∧ t = o.renderTask input output := by
  unfold request
  constructor
  · intro h
    split at h
    · cases h
    · rename_i input output hd hs hi ho
      cases h
      exact ⟨hd, hs, _, _, hi, ho, rfl⟩
    · cases h
  · rintro ⟨hd, hs, input, output, hi, ho, rfl⟩
    simp only [hd, hs, hi, ho]

end Options

/-! ## What is bound -/

open Bindings (Call made latest)

def RenderTask.calls (t : RenderTask) (input : Image) : List Call :=
  t.scalars.map (fun c => .setConstant c.1 (.splat c.2)) ++ t.pairs.map (fun c => .setConstant c.1 (.pair c.2.1 c.2.2)) ++
    [.setSampler 0 ⟨input.surface, t.rowClamp⟩, .setOutput 0 (.blank input.width input.height)]

theorem perform_forM_setConstant {β : Type} (value : β → Quad) : ∀ (l : List (UInt32 × β)) (b : Bindings),
    (l.forM fun c => Binder.setConstant c.1 (value c.2)).perform b =
      (.ok (), (l.map fun c => Call.setConstant c.1 (value c.2)).foldl (fun b call => (b.perform call).2) b)
  | [], _ => rfl
  | _ :: l, _ => perform_forM_setConstant value l _

theorem RenderTask.perform_bind (t : RenderTask) (input : Image) :
    (t.bind input).perform {} = (.ok (), made (t.calls input)) := by
  unfold RenderTask.bind
  rw [Binder.perform_bind_of_ok (perform_forM_setConstant Quad.splat t.scalars {}),
    Binder.perform_bind_of_ok (perform_forM_setConstant (fun c : Lane × Lane => Quad.pair c.1 c.2) t.pairs _),
    made, RenderTask.calls, List.foldl_append, List.foldl_append]
  rfl

theorem latest_map_setConstant {β : Type} (value : β → Quad) (i : UInt32) (l : List (UInt32 × β)) :
    latest (Call.constant? i) (l.map fun c => .setConstant c.1 (value c.2)) = (l.reverse.lookup i).map value := by
  induction l using List.reverseRecOn with
  | nil => rfl
  | append_singleton l c ih =>
    rw [List.map_append, List.map_singleton, Bindings.latest_concat, ih, List.reverse_concat, List.lookup_cons]
    by_cases hi : i = c.1
    · simp [Call.constant?, hi]
    · rw [beq_false_of_ne hi, Call.constant?, if_neg (Ne.symm hi)]
      rfl

/-- **A constant is the last pair for its index, or else the last single value**, in whatever order pairs and single
values stand. -/
theorem Options.Holds.latest_constant {o : Options} {l : List (Setting × String)} (h : o.Holds l) (source target : String)
    (input : Image) (i : UInt32) :
    latest (Call.constant? i) ((o.renderTask source target).calls input) = constantOf l i := by
  unfold RenderTask.calls constantOf Options.renderTask
  rw [h.scalars, h.pairs, Bindings.latest_append, Bindings.latest_append, latest_map_setConstant Quad.splat,
    latest_map_setConstant fun c : Lane × Lane => Quad.pair c.1 c.2]
  cases (pairsOf l).reverse.lookup i with
  | some c => rfl
  | none => cases (scalarsOf l).reverse.lookup i <;> rfl

end PixelShader.CommandLine
