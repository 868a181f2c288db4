import Mathlib
import PixelShader.Bytecode.Assemble
import PixelShader.Proofs.CommandLine.Disk
import PixelShader.Proofs.CommandLine.Settings
import PixelShader.Proofs.Copying
import PixelShader.Proofs.Kernel.Externals
import PixelShader.Proofs.PixelMap
import PixelShader.Proofs.Png.RoundTrip
/-!
# A run saves the rendered picture or nothing

What a command line asks for is said without a run (`Renders`): which files have to be there, which picture the input
shows, what is bound, and which image a rendering leaves.  A run on a disk then comes down to saving that image
(`Renders.run`), and where there is none it leaves the disk as it is (`run_cases`).  What is found on the disk
afterwards are the bytes of a file, and they are read as a picture again.
-/
namespace PixelShader

/-! ## Bindings that no program can tell apart -/

section
variable {b b' : Bindings} {p : Program}

theorem Rendering.alike_of_supply {r r' : Rendering} {color : Pixel → Quad} (hs : b'.supply p = b.supply p)
    (h : match b.supply p with
      | .error fault => r = .refused b (.binding fault)
      | .ok image => r = b.painted image color)
    (h' : match b'.supply p with
      | .error fault => r' = .refused b' (.binding fault)
      | .ok image => r' = b'.painted image color) :
    r.outcome = .ok () → r'.outcome = .ok () ∧ r'.bindings.output = r.bindings.output := by
  intro hr
  rw [hs] at h'
  cases hb : b.supply p with
  | error fault =>
    rw [hb] at h
    rw [h] at hr
    cases hr
  | ok image =>
    simp only [hb] at h h'
    rw [h, h']
    exact ⟨rfl, rfl⟩

/-- What a rendering leaves depends on the constants and samplers only as far as they can be looked up. -/
theorem Bindings.render_congr {backend : Backend} (hc : ∀ i, b'.constants.get? i = b.constants.get? i)
    (hs : ∀ s, b'.samplers.get s = b.samplers.get s) (ho : b'.output = b.output)
    (h : (b.render backend p).outcome = .ok ()) :
    (b'.render backend p).outcome = .ok () ∧
      (b'.render backend p).bindings.output = (b.render backend p).bindings.output := by
  have hstart : startValues b'.constants = startValues b.constants := by
    funext coordinate cell
    simp only [startValues, ConstantTable.getOrZero, hc]
  have hget : b'.samplers.get = b.samplers.get := funext hs
  have hsupply : b'.supply p = b.supply p := by
    simp only [supply, sampler, samplerAt, hget, ho]
  cases backend with
  | interpreter =>
    cases hi : Interpreter.ofProgram p with
    | error fault => simp [render, hi, Rendering.refused] at h
    | ok i =>
      simp only [render, hi] at h ⊢
      have h' := Interpreter.run_spec hi b'
      simp only [hstart, hget] at h'
      exact Rendering.alike_of_supply hsupply (Interpreter.run_spec hi b) h' h
  | compiler =>
    cases hk : Kernel.compile p with
    | error fault => simp [render, hk, Rendering.refused] at h
    | ok k =>
      simp only [render, hk] at h ⊢
      have h' := Kernel.run_spec hk b'
      simp only [hstart, hget] at h'
      exact Rendering.alike_of_supply hsupply (Kernel.run_spec hk b) h' h

end

namespace CommandLine

/-! ## What is bound -/

/-- The input is bound to the first sampler and nothing to any other, the constants are those of the settings, and the
output is blank and of the input's size. -/
structure Binds (l : List (Setting × String)) (rowClamp : RowClamp) (input : Image) (b : Bindings) : Prop where
  constants : ∀ i, b.constants.get? i = constantOf l i
  sampler : b.sampler 0 = .ok ⟨input.surface, rowClamp⟩
  others : ∀ i, i ≠ 0 → ∀ s, b.sampler i ≠ .ok s
  output : b.output = some (.blank input.width input.height)

section
variable {l : List (Setting × String)} {rowClamp : RowClamp} {input image : Image} {b b' : Bindings}

theorem Binds.get (h : Binds l rowClamp input b) (s : Slot) :
    b.samplers.get s = if s.val = 0 then some ⟨input.surface, rowClamp⟩ else none := by
  have hat := b.sampler_ofNat s
  rw [Bindings.samplerAt_of_get] at hat
  by_cases hs : s.val = 0
  · have hzero : b.sampler (UInt32.ofNat s) = .ok ⟨input.surface, rowClamp⟩ := by
      rw [hs]
      exact h.sampler
    rw [hzero] at hat
    rw [if_pos hs]
    cases hget : b.samplers.get s with
    | none =>
      rw [hget] at hat
      cases hat
    | some x =>
      rw [hget] at hat
      exact congrArg some (Except.ok.inj hat).symm
  · rw [if_neg hs]
    cases hget : b.samplers.get s with
    | none => rfl
    | some x =>
      rw [hget] at hat
      refine absurd hat (h.others (UInt32.ofNat s) (fun h0 => hs ?_) x)
      have hval := toNat_slot s
      rw [h0] at hval
      exact hval.symm

open Bindings (Call made latest)

theorem latest_calls {β : Type} {tells : Call → Option β} (h : ∀ i v, tells (.setConstant i v) = none) (t : RenderTask)
    (input : Image) : latest tells (t.calls input) = latest tells
      [.setSampler 0 ⟨input.surface, t.rowClamp⟩, .setOutput 0 (.blank input.width input.height)] := by
  have hnone : latest tells (t.scalars.map (fun c => .setConstant c.1 (.splat c.2)) ++
      t.pairs.map fun c => .setConstant c.1 (.pair c.2.1 c.2.2)) = none := by
    refine List.findSome?_eq_none_iff.2 fun call hcall => ?_
    rcases List.mem_append.1 (List.mem_reverse.1 hcall) with hcall | hcall
    · obtain ⟨c, -, rfl⟩ := List.mem_map.1 hcall
      exact h _ _
    · obtain ⟨c, -, rfl⟩ := List.mem_map.1 hcall
      exact h _ _
  rw [RenderTask.calls, Bindings.latest_append, hnone, Option.or_none]

theorem Options.Holds.binds {o : Options} (h : o.Holds l) (source target : String) (input : Image) :
    Binds l o.rowClamp input (made ((o.renderTask source target).calls input)) := by
  have hsampler : ∀ i, latest (Call.sampler? i) ((o.renderTask source target).calls input) =
      if 0 = i then some ⟨input.surface, o.rowClamp⟩ else none := by
    intro i
    rw [latest_calls fun _ _ => rfl]
    by_cases hi : 0 = i
    · subst hi
      rfl
    · simp [latest, Call.sampler?, hi]
  refine ⟨fun i => ?_, ?_, fun i hi s hs => ?_, ?_⟩
  · rw [Bindings.get?_made, h.latest_constant]
  · rw [Bindings.sampler_made, hsampler]
    rfl
  · rw [Bindings.sampler_made, hsampler, if_neg (Ne.symm hi)] at hs
    split at hs <;> cases hs
  · rw [Bindings.output_made, latest_calls fun _ _ => rfl]
    rfl

theorem Binds.render (h : Binds l rowClamp input b) (h' : Binds l rowClamp input b') {backend : Backend} {p : Program}
    (hr : (b.render backend p).outcome = .ok ()) :
    (b'.render backend p).outcome = .ok () ∧
      (b'.render backend p).bindings.output = (b.render backend p).bindings.output :=
  Bindings.render_congr (fun i => (h'.constants i).trans (h.constants i).symm)
    (fun s => (h'.get s).trans (h.get s).symm) (h'.output.trans h.output.symm) hr

theorem Binds.output_render (h : Binds l rowClamp input b) {backend : Backend} {p : Program}
    (hr : (b.render backend p).outcome = .ok ()) :
    ∃ image, (b.render backend p).bindings.output = some image ∧ image.width = input.width ∧
      image.height = input.height := by
  obtain ⟨image, hb, hw, hh, -⟩ := @Bindings.output_painted b (.blank input.width input.height)
    fun pixel => backend.color p (b.sampled p) b.constants pixel.coordinate
  rw [← Bindings.render_eq_painted h.output hr] at hb
  exact ⟨image, by rw [hb], hw, hh⟩

end

/-! ## What is asked for -/

/-- The command line asks for a picture and everything for it is there: no dump is asked for, the shader's file is found
and decodes, the input is read as a picture, and a rendering by the chosen strategy, of an image that shows that picture
and with the constants of the command line, leaves an image. -/
inductive Renders (d : Disk) (arguments : List String) (output : String) (input : Picture) (image : Image) : Prop
  | intro {o : Options} {shader source : String} {content : ByteArray} {p : Program} {backend : Backend}
      {rowClamp : RowClamp} {sampled : Image} {b : Bindings}
      (options : readOptions arguments = .ok o) (noDump : Switch.dump ∉ o.switches)
      (shaderGiven : o.shader = some shader) (inputGiven : o.input = some source) (outputGiven : o.output = some output)
      (strategy : backend = if Switch.interpreter ∈ o.switches then .interpreter else .compiler)
      (clamp : rowClamp = if Switch.legacyRowClamp ∈ o.switches then .legacyWidth else .height)
      (found : d.find shader = .ok content) (decodes : Bytecode.decode content.data.toList = .ok p)
      (loads : readPicture source (d.find source) = .ok input) (shows : sampled.Shows input)
      (binds : Binds (settings arguments) rowClamp sampled b)
      (succeeds : (b.render backend p).outcome = .ok ())
      (leaves : (b.render backend p).bindings.output = some image)

theorem Options.has_eq (o : Options) (s : Switch) : o.has s = decide (s ∈ o.switches) := by simp [has]

theorem Options.backend_eq (o : Options) :
    o.backend = if Switch.interpreter ∈ o.switches then .interpreter else .compiler := by simp [backend, has_eq]

theorem Options.rowClamp_eq (o : Options) :
    o.rowClamp = if Switch.legacyRowClamp ∈ o.switches then .legacyWidth else .height := by simp [rowClamp, has_eq]

section
variable {d : Disk} {arguments : List String} {output : String} {input : Picture} {image : Image}

theorem Renders.size (h : Renders d arguments output input image) :
    image.width = input.width ∧ image.height = input.height := by
  obtain ⟨-, -, -, -, -, -, -, -, -, -, shows, binds, succeeds, leaves⟩ := h
  obtain ⟨image', hout, hw, hh⟩ := binds.output_render succeeds
  rw [leaves] at hout
  cases hout
  exact ⟨hw.trans shows.width, hh.trans shows.height⟩

/-! ## Runs -/

theorem renderPicture_of_ok {shader : String} {t : RenderTask} {p : Program}
    (hload : readPicture t.input (d.find t.input) = .ok input)
    (hr : ((Bindings.made (t.calls (.ofPicture input))).render t.backend p).outcome = .ok ())
    (ho : ((Bindings.made (t.calls (.ofPicture input))).render t.backend p).bindings.output = some image) :
    renderPicture Disk.asFiles shader t p d = saveImage Disk.asFiles t.output image d := by
  obtain ⟨b', htake⟩ : ∃ b', (Binder.takeOutput 0).perform
      ((Bindings.made (t.calls (.ofPicture input))).render t.backend p).bindings = (.ok image, b') := by
    rw [Binder.perform_takeOutput, Bindings.outputAt_eq, if_pos rfl, ho]
    exact ⟨_, rfl⟩
  simp [renderPicture, Files.loadPicture, Disk.asFiles, bind, StateT.bind, pure, StateT.pure, hload,
    RenderTask.perform_bind, hr, htake]

theorem Renders.run (h : Renders d arguments output input image) :
    run Disk.asFiles arguments d = saveImage Disk.asFiles output image d := by
  obtain ⟨options, noDump, shaderGiven, inputGiven, outputGiven, strategy, clamp, found, decodes, loads, shows, binds,
    succeeds, leaves⟩ := h
  rename_i o shader source content p backend rowClamp sampled b
  obtain rfl : backend = o.backend := strategy.trans o.backend_eq.symm
  obtain rfl : rowClamp = o.rowClamp := clamp.trans o.rowClamp_eq.symm
  have hdump : o.has .dump = false := by rw [o.has_eq, decide_eq_false noDump]
  obtain rfl := shows.unique (Image.shows_ofPicture input)
  have hrequest : readArguments arguments = .ok ⟨shader, .render (o.renderTask source output)⟩ := by
    rw [readArguments, options]
    exact Options.request_eq_render.2 ⟨hdump, shaderGiven, source, output, inputGiven, outputGiven, rfl⟩
  have hown := (holds_of_readOptions options).binds source output (.ofPicture input)
  obtain ⟨hr, ho⟩ := binds.render hown succeeds
  have hrun : CommandLine.run Disk.asFiles arguments d =
      renderPicture Disk.asFiles shader (o.renderTask source output) p d := by
    simp [CommandLine.run, hrequest, perform, Disk.asFiles, bind, StateT.bind, found, decodes]
  rw [hrun]
  exact renderPicture_of_ok loads hr (ho.trans leaves)

theorem renderPicture_cases (d : Disk) (shader : String) (t : RenderTask) (p : Program) :
    (renderPicture Disk.asFiles shader t p d).2 = d ∨ ∃ input, readPicture t.input (d.find t.input) = .ok input ∧
      ((Bindings.made (t.calls (.ofPicture input))).render t.backend p).outcome = .ok () := by
  cases hload : readPicture t.input (d.find t.input) with
  | error fault =>
    exact .inl (by
      simp [renderPicture, Files.loadPicture, Disk.asFiles, bind, StateT.bind, hload, pure, StateT.pure])
  | ok input =>
    cases hr : ((Bindings.made (t.calls (.ofPicture input))).render t.backend p).outcome with
    | error fault =>
      exact .inl (by
        simp [renderPicture, Files.loadPicture, Disk.asFiles, bind, StateT.bind, hload, RenderTask.perform_bind, hr,
          pure, StateT.pure])
    | ok _ => exact .inr ⟨input, rfl, hr⟩

theorem perform_cases (d : Disk) (r : Request) :
    (perform Disk.asFiles r d).2 = d ∨ ∃ content p t input, r.task = .render t ∧ d.find r.shader = .ok content ∧
      Bytecode.decode content.data.toList = .ok p ∧ readPicture t.input (d.find t.input) = .ok input ∧
      ((Bindings.made (t.calls (.ofPicture input))).render t.backend p).outcome = .ok () := by
  cases hfind : d.find r.shader with
  | error fault => exact .inl (by simp [perform, Disk.asFiles, bind, StateT.bind, hfind, pure, StateT.pure])
  | ok content =>
    cases hdecode : Bytecode.decode content.data.toList with
    | error fault =>
      exact .inl (by simp [perform, Disk.asFiles, bind, StateT.bind, hfind, hdecode, pure, StateT.pure])
    | ok p =>
      cases htask : r.task with
      | dump =>
        exact .inl (by simp [perform, Disk.asFiles, bind, StateT.bind, hfind, hdecode, htask, pure, StateT.pure])
      | render t =>
        have hperform : perform Disk.asFiles r d = renderPicture Disk.asFiles r.shader t p d := by
          simp [perform, Disk.asFiles, bind, StateT.bind, hfind, hdecode, htask]
        rw [hperform]
        rcases renderPicture_cases d r.shader t p with hd | ⟨input, hload, hr⟩
        · exact .inl hd
        · exact .inr ⟨content, p, t, input, rfl, rfl, hdecode, hload, hr⟩

theorem run_cases (d : Disk) (arguments : List String) :
    (run Disk.asFiles arguments d).2 = d ∨ ∃ output input image, Renders d arguments output input image := by
  cases hrequest : readArguments arguments with
  | error stop =>
    left
    unfold CommandLine.run
    rw [hrequest]
    cases stop <;> rfl
  | ok request =>
    have hrun : CommandLine.run Disk.asFiles arguments d = perform Disk.asFiles request d := by
      simp only [CommandLine.run, hrequest]
    rw [hrun]
    rcases perform_cases d request with hd | ⟨content, p, t, input, htask, hfind, hdecode, hload, hr⟩
    · exact .inl hd
    · obtain ⟨shader, task⟩ := request
      obtain rfl : task = .render t := htask
      obtain ⟨o, ho, hrequest⟩ := except_bind_eq_ok.1 hrequest
      obtain ⟨hd, hs, source, output, hi, hout, rfl⟩ := Options.request_eq_render.1 hrequest
      have hbinds := (holds_of_readOptions ho).binds source output (.ofPicture input)
      obtain ⟨image, himage, -, -⟩ := hbinds.output_render hr
      rw [o.has_eq, decide_eq_false_iff_not] at hd
      exact .inr ⟨output, input, image, .intro ho hd hs hi hout o.backend_eq o.rowClamp_eq hfind hdecode hload
        (Image.shows_ofPicture input) hbinds hr himage⟩

theorem Renders.output_eq {o : Options} {target : String} (h : Renders d arguments output input image)
    (ho : readOptions arguments = .ok o) (ht : o.output = some target) : output = target := by
  obtain ⟨options, -, -, -, outputGiven, -⟩ := h
  rw [options] at ho
  cases ho
  rw [outputGiven] at ht
  exact Option.some.inj ht

theorem saveImage_eq (d : Disk) (path : String) (image : Image) :
    ((saveImage Disk.asFiles path image d).1.code = 0 ↔
      (Disk.asFiles.savePicture path (.ofImage image) d).1 = .ok ()) ∧
    (saveImage Disk.asFiles path image d).2 = (Disk.asFiles.savePicture path (.ofImage image) d).2 := by
  cases hsave : Disk.asFiles.savePicture path (.ofImage image) d with
  | mk saved d' =>
    cases saved with
    | error fault => simp [saveImage, bind, StateT.bind, hsave, pure, StateT.pure, failure]
    | ok _ => simp [saveImage, bind, StateT.bind, hsave, pure, StateT.pure]

end

def constantDisk : Disk where
  files := [
    (["s"], ⟨(Bytecode.bytesOfWords [0xffff0200, 0x02000001, 0x800f0800, 0xa0e40000, 0x0000ffff]).toArray⟩),
    (["in.png"], Png.encode ⟨1, 1, #[default], rfl⟩)]

def pairFirst (output : String) : List String := ["-p", "0=0,1", "-c0=1", "s", "in.png", output]

def pairFirstOptions (output : String) : Options :=
  { pairs := [(0, .zero, .one)], scalars := [(0, .one)], shader := some "s", input := some "in.png",
    output := some output }

theorem readOptions_pairFirst : readOptions (pairFirst "out.png") = .ok (pairFirstOptions "out.png") ∧
    readOptions (pairFirst "out") = .ok (pairFirstOptions "out") := by decide +kernel

theorem pixels_pairFirst : (match (run Disk.asFiles (pairFirst "out.png") constantDisk).2.find "out.png" with
      | .ok content => (Png.decode content).toOption.map (·.pixels)
      | .error _ => none) = some #[⟨0, 255, 0, 0⟩] := by decide +kernel

theorem find_pairFirst : ∃ f, (run Disk.asFiles (pairFirst "out.png") constantDisk).2.find "out.png" = .ok f := by
  have h := pixels_pairFirst
  split at h
  · rename_i content hf
    exact ⟨content, hf⟩
  · cases h

theorem find_constantDisk (f : ByteArray) : constantDisk.find "out.png" ≠ .ok f := by
  intro hf
  have hno : (constantDisk.find "out.png").isOk = false := by decide +kernel
  rw [hf] at hno
  cases hno

end CommandLine
end PixelShader
