import Mathlib
import PixelShader.Png.Decode
import PixelShader.Proofs.Png.Deflate
import PixelShader.Proofs.Texture.Picture
/-!
# A picture that is written is read

A file is a signature and chunks, and the chunks of a file are found one behind the other (`chunksFrom_joined`); those
that hold the compressed rows are put together again (`foldl_parts`).  The bytes of the rows stand at places given by
arithmetic (`getElem?_scanlines`).  No filter changes them (`byteAt_unfilter`), and a pixel is read from the four places
where it was written (`pixelAt_unfilter`).
-/
namespace PixelShader.Png

/-! ## Bytes side by side -/

section
variable (a b : ByteArray)

theorem byteAt_append (n : Nat) : byteAt (a ++ b) n = if n < a.size then byteAt a n else byteAt b (n - a.size) := by
  have hsize : a.data.size = a.size := rfl
  rw [byteAt_eq, ByteArray.data_append, Array.getElem?_append, byteAt_eq, byteAt_eq, hsize]
  split <;> rfl

theorem byteAt_append_right (n : Nat) : byteAt (a ++ b) (a.size + n) = byteAt b n := by
  rw [byteAt_append, if_neg (by omega), Nat.add_sub_cancel_left]

theorem bigEndianAt_eq (data : ByteArray) (offset : Nat) : bigEndianAt data offset =
    ((byteAt data offset * 256 + byteAt data (offset + 1)) * 256 + byteAt data (offset + 2)) * 256
      + byteAt data (offset + 3) := by
  simp [bigEndianAt, List.range_succ]

theorem bigEndianAt_append_right (offset : Nat) : bigEndianAt (a ++ b) (a.size + offset) = bigEndianAt b offset := by
  simp only [bigEndianAt_eq, Nat.add_assoc, byteAt_append_right]

theorem bigEndianAt_append_left {offset : Nat} (h : offset + 4 ≤ a.size) :
    bigEndianAt (a ++ b) offset = bigEndianAt a offset := by
  have hleft : ∀ n < a.size, byteAt (a ++ b) n = byteAt a n := fun n hn => by rw [byteAt_append, if_pos hn]
  rw [bigEndianAt_eq, bigEndianAt_eq, hleft _ (by omega), hleft _ (by omega), hleft _ (by omega), hleft _ (by omega)]

end

theorem size_bigEndian (n : UInt32) : (bigEndian n).size = 4 := rfl

theorem bigEndianAt_bigEndian (n : UInt32) : bigEndianAt (bigEndian n) 0 = n.toNat := by
  have hbytes : bigEndianAt (bigEndian n) 0 = (((n >>> 24).toUInt8.toNat * 256 + (n >>> 16).toUInt8.toNat) * 256
      + (n >>> 8).toUInt8.toNat) * 256 + n.toUInt8.toNat := bigEndianAt_eq _ 0
  rw [hbytes]
  have hlt := n.toNat_lt
  simp only [UInt32.toNat_toUInt8, UInt32.toNat_shiftRight, Nat.shiftRight_eq_div_pow, UInt32.reduceToNat, Nat.reduceMod,
    Nat.reducePow]
  omega

/-! ## Chunks -/

def joined (l : List (String × ByteArray)) : ByteArray := l.foldr (fun c out => chunk c.1 c.2 ++ out) .empty

theorem joined_cons (c : String × ByteArray) (l : List (String × ByteArray)) :
    joined (c :: l) = chunk c.1 c.2 ++ joined l := rfl

theorem joined_append (l m : List (String × ByteArray)) : joined (l ++ m) = joined l ++ joined m := by
  induction l with
  | nil => exact ByteArray.empty_append.symm
  | cons c l ih => rw [List.cons_append, joined_cons, joined_cons, ih, ByteArray.append_assoc]

structure Fits (c : String × ByteArray) : Prop where
  name : c.1.toUTF8.size = 4
  size : c.2.size < 2 ^ 32

theorem size_chunk {c : String × ByteArray} (h : Fits c) : (chunk c.1 c.2).size = c.2.size + 12 := by
  have hname := h.name
  simp only [chunk, ByteArray.size_append, size_bigEndian]
  omega

/-- **A chunk is found where it stands**, with its name and its data. -/
theorem chunksFrom_chunk {c : String × ByteArray} (h : Fits c) (before behind : ByteArray) (fuel : Nat) :
    chunksFrom (before ++ (chunk c.1 c.2 ++ behind)) before.size (fuel + 1) =
      (chunkCode c.1, c.2) :: chunksFrom (before ++ (chunk c.1 c.2 ++ behind)) (before ++ chunk c.1 c.2).size fuel := by
  have hsize := size_chunk h
  have hname := h.name
  -- what a chunk is made of, seen from its start and from its name
  have hchunk : chunk c.1 c.2 ++ behind = bigEndian (UInt32.ofNat c.2.size) ++ (c.1.toUTF8 ++ (c.2 ++
      (bigEndian (crc (c.1.toUTF8 ++ c.2)) ++ behind))) := by
    simp only [chunk, ByteArray.append_assoc]
  have hlength : bigEndianAt (before ++ (chunk c.1 c.2 ++ behind)) before.size = c.2.size := by
    have hright := bigEndianAt_append_right before (chunk c.1 c.2 ++ behind) 0
    rw [Nat.add_zero] at hright
    rw [hright, hchunk, bigEndianAt_append_left _ _ (by rw [size_bigEndian]), bigEndianAt_bigEndian,
      UInt32.toNat_ofNat_of_lt' h.size]
  have hcode : bigEndianAt (before ++ (chunk c.1 c.2 ++ behind)) (before.size + 4) = chunkCode c.1 := by
    rw [bigEndianAt_append_right, hchunk]
    refine (bigEndianAt_append_right (bigEndian _) _ 0).trans ?_
    exact bigEndianAt_append_left _ _ (by rw [hname])
  have hdata : (before ++ (chunk c.1 c.2 ++ behind)).extract (before.size + 8) (before.size + 8 + c.2.size) = c.2 := by
    have hfront : 8 = (bigEndian (UInt32.ofNat c.2.size) ++ c.1.toUTF8).size := by
      rw [ByteArray.size_append, size_bigEndian, hname]
    rw [Nat.add_assoc, ByteArray.extract_append_size_add, hchunk, ← ByteArray.append_assoc]
    exact (ByteArray.extract_append_size_add' (i := 0) hfront).trans (ByteArray.extract_append_eq_left rfl)
  rw [chunksFrom]
  simp only [hlength, hcode, hdata]
  have hnext : (before ++ chunk c.1 c.2).size = before.size + 12 + c.2.size := by
    rw [ByteArray.size_append, hsize]
    omega
  rw [if_neg, hnext]
  simp only [ByteArray.size_append, hsize]
  omega

theorem chunksFrom_joined : ∀ (l : List (String × ByteArray)) (before : ByteArray) {fuel : Nat}, (∀ c ∈ l, Fits c) →
    l.length ≤ fuel → chunksFrom (before ++ joined l) before.size fuel = l.map fun c => (chunkCode c.1, c.2)
  | [], before, fuel, _, _ => by
    cases fuel with
    | zero => rfl
    | succ fuel =>
      rw [chunksFrom]
      exact if_pos (by simp [joined]; omega)
  | c :: l, before, fuel, hfits, hfuel => by
    obtain ⟨fuel, rfl⟩ := Nat.exists_eq_succ_of_ne_zero (Nat.ne_zero_of_lt hfuel)
    rw [joined_cons, chunksFrom_chunk (hfits c List.mem_cons_self), ← ByteArray.append_assoc,
      chunksFrom_joined l _ (fun d hd => hfits d (List.mem_cons_of_mem c hd)) (Nat.le_of_succ_le_succ hfuel)]
    rfl

/-! ## Data in several chunks -/

def parts (data : ByteArray) : List ByteArray :=
  (List.range ((data.size + maxChunkLength - 1) / maxChunkLength)).map fun k =>
    data.extract (k * maxChunkLength) ((k + 1) * maxChunkLength)

theorem chunks_eq (name : String) (data : ByteArray) : chunks name data = joined ((parts data).map (name, ·)) := by
  have hfold : ∀ (l : List ByteArray) (out : ByteArray),
      l.foldl (fun out part => out ++ chunk name part) out = out ++ joined (l.map (name, ·)) := by
    intro l
    induction l with
    | nil => exact fun out => ByteArray.append_empty.symm
    | cons part l ih =>
      intro out
      rw [List.foldl_cons, ih, ByteArray.append_assoc]
      rfl
  have h := hfold (parts data) .empty
  rw [ByteArray.empty_append, parts, List.foldl_map] at h
  exact h

theorem foldl_parts (data : ByteArray) : (parts data).foldl (· ++ ·) .empty = data := by
  have hfold : ∀ n, ((List.range n).map fun k => data.extract (k * maxChunkLength) ((k + 1) * maxChunkLength)).foldl
      (· ++ ·) .empty = data.extract 0 (n * maxChunkLength) := by
    intro n
    induction n with
    | zero => exact ByteArray.extract_same.symm
    | succ n ih =>
      rw [List.range_succ, List.map_append, List.foldl_append, ih]
      exact (ByteArray.extract_eq_extract_append_extract (n * maxChunkLength) (Nat.zero_le _)
        (Nat.mul_le_mul_right _ (Nat.le_succ n))).symm
  have hreach : data.size ≤ (data.size + maxChunkLength - 1) / maxChunkLength * maxChunkLength := by
    unfold maxChunkLength
    omega
  rw [parts, hfold, ← Nat.max_eq_left hreach]
  exact ByteArray.extract_zero_max_size

theorem size_le_of_mem_parts {data part : ByteArray} (h : part ∈ parts data) : part.size ≤ maxChunkLength := by
  obtain ⟨k, -, rfl⟩ := List.mem_map.1 h
  rw [ByteArray.size_extract, Nat.succ_mul]
  omega

/-! ## Rows -/

section
variable (p : Picture)

def rowOf (y : Nat) : List UInt8 := (List.range p.width.toNat).flatMap fun x => (p.pixel x y).bytes

theorem length_rowOf (y : Nat) : (rowOf p y).length = 4 * p.width.toNat := by
  rw [rowOf, length_flatMap_of_length (k := 4) fun _ => rfl, List.length_range, Nat.mul_comm]

theorem length_cons_rowOf (y : Nat) : (0 :: rowOf p y).length = 4 * p.width.toNat + 1 := by
  rw [List.length_cons, length_rowOf]

theorem getElem?_rowOf {x channel : Nat} (y : Nat) (hx : x < p.width.toNat) (hc : channel < 4) :
    (rowOf p y)[x * 4 + channel]? = (p.pixel x y).bytes[channel]? := by
  rw [rowOf, getElem?_flatMap_mul_add (k := 4) (fun _ => rfl) hc, List.getElem?_range hx]
  rfl

theorem range_mul (m n : Nat) : List.range (m * n) = (List.range m).flatMap fun y => (List.range n).map (y * n + ·) := by
  induction m with
  | zero => rw [Nat.zero_mul]; rfl
  | succ m ih =>
    rw [Nat.succ_mul, List.range_add, ih, List.range_succ, List.flatMap_append, List.flatMap_singleton]

/-- **The rows stand one behind the other, each behind a byte that names no filter.** -/
theorem scanlines_eq (hw : 0 < p.width.toNat) :
    (scanlines p).data.toList = (List.range p.height.toNat).flatMap fun y => 0 :: rowOf p y := by
  have hfold : ∀ (l : List Nat) (out : ByteArray),
      (l.foldl (fun out n =>
        let out := if n % p.width.toNat = 0 then out.push 0 else out
        let c := p.pixels.getD n default
        (((out.push c.red).push c.green).push c.blue).push c.alpha) out).data.toList =
      out.data.toList ++ l.flatMap fun n =>
        (if n % p.width.toNat = 0 then [0] else []) ++ Rgba.bytes (p.pixels.getD n default) := by
    intro l
    induction l with
    | nil => exact fun out => (List.append_nil _).symm
    | cons n l ih =>
      intro out
      rw [List.foldl_cons, ih, List.flatMap_cons]
      split <;> simp [Rgba.bytes]
  have hrow : ∀ y, ((List.range p.width.toNat).map (y * p.width.toNat + ·)).flatMap (fun n =>
      (if n % p.width.toNat = 0 then [0] else []) ++ Rgba.bytes (p.pixels.getD n default)) = 0 :: rowOf p y := by
    intro y
    have hbytes : ∀ x ∈ List.range p.width.toNat,
        (if (y * p.width.toNat + x) % p.width.toNat = 0 then [0] else []) ++
            Rgba.bytes (p.pixels.getD (y * p.width.toNat + x) default) =
          (if x = 0 then [0] else []) ++ (p.pixel x y).bytes := by
      intro x hx
      rw [Nat.mul_comm y, Nat.mul_add_mod, Nat.mod_eq_of_lt (List.mem_range.1 hx), Nat.mul_comm]
      rfl
    rw [List.flatMap_map, List.flatMap_congr hbytes, rowOf]
    obtain ⟨k, hk⟩ := Nat.exists_eq_succ_of_ne_zero (Nat.ne_of_gt hw)
    rw [hk, Nat.succ_eq_add_one, List.range_succ_eq_map, List.flatMap_cons, List.flatMap_cons, List.flatMap_map,
      List.flatMap_map]
    rfl
  rw [scanlines, hfold, p.size_eq, Nat.mul_comm, range_mul, List.flatMap_assoc]
  simp only [hrow]
  rfl

theorem getElem?_scanlines {y j : Nat} (hy : y < p.height.toNat) (hj : j < 4 * p.width.toNat + 1)
    (hw : 0 < p.width.toNat) : (scanlines p).data[y * (4 * p.width.toNat + 1) + j]? = (0 :: rowOf p y)[j]? := by
  rw [← Array.getElem?_toList, scanlines_eq p hw, getElem?_flatMap_mul_add (length_cons_rowOf p) hj,
    List.getElem?_range hy]
  rfl

theorem size_scanlines (hw : 0 < p.width.toNat) :
    (scanlines p).size = p.height.toNat * (4 * p.width.toNat + 1) := by
  have hsize : (scanlines p).size = (scanlines p).data.toList.length := rfl
  rw [hsize, scanlines_eq p hw, length_flatMap_of_length (length_cons_rowOf p), List.length_range]

/-! ## Rows without a filter -/

theorem unfilterRow_eq {f : Form} {data : ByteArray} {offset : Nat} (h : byteAt data offset = 0) (out : ByteArray) :
    (unfilterRow f data offset out).data.toList =
      out.data.toList ++ (List.range f.rowBytes).map fun i => UInt8.ofNat (byteAt data (offset + 1 + i)) := by
  have hfold : ∀ (l : List Nat) (out : ByteArray),
      (l.foldl (fun out i => out.push (UInt8.ofNat (byteAt data (offset + 1 + i) + 0))) out).data.toList =
        out.data.toList ++ l.map fun i => UInt8.ofNat (byteAt data (offset + 1 + i)) := by
    intro l
    induction l with
    | nil => exact fun out => (List.append_nil _).symm
    | cons i l ih =>
      intro out
      rw [List.foldl_cons, ih, List.map_cons]
      simp
  unfold unfilterRow
  rw [h]
  exact hfold (List.range f.rowBytes) out

/-- The form in which the pixels of a picture are written. -/
structure Form.Shows (f : Form) : Prop where
  width : f.width = p.width.toNat
  height : f.height = p.height.toNat
  depth : f.depth = 8
  colorType : f.colorType = 6

variable {p} {f : Form}

theorem Form.Shows.channels (h : f.Shows p) : f.channels = 4 := by
  rw [Form.channels, h.colorType]
  rfl

theorem Form.Shows.rowBytes (h : f.Shows p) : f.rowBytes = 4 * p.width.toNat := by
  rw [Form.rowBytes, Form.bitsPerPixel, h.channels, h.depth, h.width]
  omega

theorem unfilter_scanlines (h : f.Shows p) (hw : 0 < p.width.toNat) :
    (unfilter f (scanlines p) 0).data.toList = (List.range p.height.toNat).flatMap (rowOf p) := by
  have hrow : ∀ y < p.height.toNat, ∀ out, (unfilterRow f (scanlines p) (0 + y * (f.rowBytes + 1)) out).data.toList =
      out.data.toList ++ rowOf p y := by
    intro y hy out
    have hat : ∀ j < 4 * p.width.toNat + 1, byteAt (scanlines p) (y * (4 * p.width.toNat + 1) + j) =
        ((0 :: rowOf p y)[j]?.map UInt8.toNat).getD 0 := fun j hj => by rw [byteAt_eq, getElem?_scanlines p hy hj hw]
    have hfilter : byteAt (scanlines p) (y * (4 * p.width.toNat + 1)) = 0 := hat 0 (Nat.succ_pos _)
    rw [Nat.zero_add, h.rowBytes, unfilterRow_eq hfilter, h.rowBytes]
    refine congrArg (out.data.toList ++ ·) (List.ext_getElem ?_ fun i hi hi' => ?_)
    · rw [List.length_map, List.length_range, length_rowOf]
    · have hlt := hi'
      rw [length_rowOf] at hlt
      rw [List.getElem_map, List.getElem_range, Nat.add_assoc, Nat.add_comm 1, hat (i + 1) (by omega),
        List.getElem?_cons_succ, List.getElem?_eq_getElem hi']
      exact UInt8.ofNat_toNat
  have hrows : ∀ n ≤ p.height.toNat,
      ((List.range n).foldl (fun out row => unfilterRow f (scanlines p) (0 + row * (f.rowBytes + 1)) out)
        .empty).data.toList = (List.range n).flatMap (rowOf p) := by
    intro n hn
    induction n with
    | zero => rfl
    | succ n ih =>
      rw [List.range_succ, List.foldl_append, List.flatMap_append, ← ih (Nat.le_of_succ_le hn), List.flatMap_singleton]
      exact hrow n hn _
  rw [unfilter, h.height]
  exact hrows _ (Nat.le_refl _)

/-- **A pixel is read from the four places where it was written.** -/
theorem pixelAt_unfilter (h : f.Shows p) {x y : Nat} (hx : x < p.width.toNat) (hy : y < p.height.toNat) :
    pixelAt f (unfilter f (scanlines p) 0) x y = p.pixel x y := by
  have hbyte : ∀ channel < 4, byteAt (unfilter f (scanlines p) 0) (y * (4 * p.width.toNat) + (x * 4 + channel)) =
      ((p.pixel x y).bytes[channel]?.map UInt8.toNat).getD 0 := by
    intro channel hc
    have hj : x * 4 + channel < 4 * p.width.toNat := by omega
    rw [byteAt_eq, ← Array.getElem?_toList, unfilter_scanlines h (by omega),
      getElem?_flatMap_mul_add (length_rowOf p) hj, List.getElem?_range hy, Option.bind_some, getElem?_rowOf p y hx hc]
  have hsample : ∀ channel < 4, level f (sampleAt f (unfilter f (scanlines p) 0) x y channel) =
      ((p.pixel x y).bytes[channel]?.map UInt8.toNat).getD 0 := by
    intro channel hc
    have hlt := byteAt_lt (unfilter f (scanlines p) 0) (y * (4 * p.width.toNat) + (x * 4 + channel))
    have hshift : 1 <<< 8 = 256 := rfl
    simp only [level, sampleAt, h.depth, h.channels, h.rowBytes, Nat.mul_div_cancel _ (Nat.succ_pos 7), Nat.sub_self,
      Nat.zero_sub, Nat.shiftRight_zero, hshift, if_neg (show ¬ 8 = 16 by decide), ← hbyte channel hc]
    omega
  unfold pixelAt
  rw [h.colorType]
  simp only [hsample 0 (by decide), hsample 1 (by decide), hsample 2 (by decide), hsample 3 (by decide), pixel]
  simp [Rgba.bytes]

/-! ## Pictures -/

theorem pixelIn_onePass (f : Form) (rows : ByteArray) (x y : Nat) :
    pixelIn f [(⟨0, 0, 1, 1⟩, rows)] x y = pixelAt f rows x y := by
  simp [pixelIn, Pass.holds, Pass.form, Nat.mod_one]

theorem map_range_pixelAt (h : f.Shows p) : (Array.range (f.width * f.height)).map (fun n =>
    pixelAt f (unfilter f (scanlines p) 0) (n % f.width) (n / f.width)) = p.pixels := by
  apply Array.ext
  · rw [Array.size_map, Array.size_range, h.width, h.height, p.size_eq]
  · intro n hn hn'
    have hlt := hn'
    rw [p.size_eq] at hlt
    have hw : 0 < p.width.toNat := Nat.pos_of_mul_pos_right (Nat.zero_lt_of_lt hlt)
    rw [Array.getElem_map, Array.getElem_range, h.width, pixelAt_unfilter h (Nat.mod_lt n hw)
      (Nat.div_lt_of_lt_mul hlt), Picture.pixel, Nat.mul_comm, Nat.div_add_mod]
    simp [Array.getD_eq_getD_getElem?, hn']

def fileChunks (p : Picture) : List (String × ByteArray) :=
  ("IHDR", header p) :: ((parts (deflate (repeatDistances p) (scanlines p))).map ("IDAT", ·) ++ [("IEND", .empty)])

theorem encode_eq (p : Picture) : encode p = signature ++ joined (fileChunks p) := by
  rw [encode, fileChunks, joined_cons, joined_append, joined_cons, ← chunks_eq, ByteArray.append_assoc, ByteArray.append_assoc]
  exact congrArg _ (congrArg _ (congrArg _ ByteArray.append_empty.symm))

theorem fits_fileChunks {c : String × ByteArray} (h : c ∈ fileChunks p) : Fits c := by
  have hnames : "IHDR".toUTF8.size = 4 ∧ "IDAT".toUTF8.size = 4 ∧ "IEND".toUTF8.size = 4 := by decide +kernel
  rcases List.mem_cons.1 h with rfl | h
  · have hsize : (header p).size = 13 := rfl
    exact ⟨hnames.1, by rw [hsize]; decide⟩
  rcases List.mem_append.1 h with h | h
  · obtain ⟨part, hp, rfl⟩ := List.mem_map.1 h
    exact ⟨hnames.2.1, Nat.lt_of_le_of_lt (size_le_of_mem_parts hp) (by decide)⟩
  · rw [List.mem_singleton.1 h]
    exact ⟨hnames.2.2, by decide⟩

theorem length_le_size_joined : ∀ {l : List (String × ByteArray)}, (∀ c ∈ l, Fits c) → l.length ≤ (joined l).size
  | [], _ => Nat.zero_le _
  | c :: l, h => by
    have hl := length_le_size_joined fun d hd => h d (List.mem_cons_of_mem c hd)
    rw [joined_cons, ByteArray.size_append, size_chunk (h c List.mem_cons_self), List.length_cons]
    omega

theorem chunksFrom_encode (p : Picture) :
    chunksFrom (encode p) 8 (encode p).size = (fileChunks p).map fun c => (chunkCode c.1, c.2) := by
  rw [encode_eq]
  refine chunksFrom_joined (fileChunks p) signature (fun c hc => fits_fileChunks hc) ?_
  rw [ByteArray.size_append]
  exact (length_le_size_joined fun c hc => fits_fileChunks hc).trans (Nat.le_add_left _ _)

theorem lookup_header (p : Picture) : ((fileChunks p).map fun c => (chunkCode c.1, c.2)).lookup (chunkCode "IHDR") =
    some (header p) := by
  rw [fileChunks, List.map_cons, List.lookup_cons, beq_self_eq_true]

theorem foldl_filter_fileChunks (p : Picture) :
    (((fileChunks p).map fun c => (chunkCode c.1, c.2)).filter (·.1 == chunkCode "IDAT")).foldl
      (fun out c => out ++ c.2) ByteArray.empty = deflate (repeatDistances p) (scanlines p) := by
  have hcodes : (chunkCode "IHDR" == chunkCode "IDAT") = false ∧ (chunkCode "IEND" == chunkCode "IDAT") = false := by
    decide +kernel
  have hparts : ∀ l : List ByteArray, ((l.map fun part => (chunkCode "IDAT", part)).filter (·.1 == chunkCode "IDAT")) =
      l.map fun part => (chunkCode "IDAT", part) := fun l => List.filter_eq_self.2 (by simp)
  simp only [fileChunks, List.map_cons, List.map_append, List.map_map, Function.comp_def, List.map_nil,
    List.filter_cons, List.filter_append, hcodes, hparts, Bool.false_eq_true, if_false, List.filter_nil, List.append_nil,
    List.foldl_map]
  rw [foldl_parts]

theorem header_fields (p : Picture) : bigEndianAt (header p) 0 = p.width.toNat ∧
    bigEndianAt (header p) 4 = p.height.toNat ∧ byteAt (header p) 8 = 8 ∧ byteAt (header p) 9 = 6 ∧
    byteAt (header p) 12 = 0 := by
  have htail : ∀ n, byteAt (header p) (8 + n) = byteAt ⟨#[8, 6, 0, 0, 0]⟩ n := byteAt_append_right _ _
  refine ⟨?_, ?_, htail 0, htail 1, htail 4⟩
  · rw [header, ByteArray.append_assoc, bigEndianAt_append_left _ _ (by rw [size_bigEndian]), bigEndianAt_bigEndian]
  · rw [header, ByteArray.append_assoc]
    refine (bigEndianAt_append_right (bigEndian p.width) _ 0).trans ?_
    rw [bigEndianAt_append_left _ _ (by rw [size_bigEndian]), bigEndianAt_bigEndian]

theorem pictureOf_scanlines (h : f.Shows p) : pictureOf f [⟨0, 0, 1, 1⟩] (scanlines p) = .ok p := by
  have hform : Pass.form ⟨0, 0, 1, 1⟩ f = f := by simp [Pass.form]
  have hsize : ¬ (scanlines p).size < 0 + f.size := by
    unfold Form.size
    rw [h.width]
    split
    · exact Nat.not_lt_zero _
    · rename_i hw
      rw [size_scanlines p (Nat.pos_of_ne_zero hw), h.height, h.rowBytes, Nat.zero_add]
      exact Nat.lt_irrefl _
  have hpicture : Picture.ofPixels? (UInt32.ofNat f.width) (UInt32.ofNat f.height) p.pixels = some p := by
    rw [h.width, h.height, UInt32.ofNat_toNat, UInt32.ofNat_toNat]
    exact dif_pos p.size_eq
  simp only [pictureOf, readPasses, List.foldl_cons, List.foldl_nil, hform, if_neg hsize, pixelIn_onePass,
    map_range_pixelAt h, hpicture]

theorem readChunks_of_lookup {chunks : List (Nat × ByteArray)} {data : ByteArray}
    (hheader : chunks.lookup (chunkCode "IHDR") = some (header p))
    (hdata : inflate ((chunks.filter (·.1 == chunkCode "IDAT")).foldl (fun out c => out ++ c.2) ByteArray.empty) =
      some data) : ∃ f : Form, f.Shows p ∧ readChunks chunks = pictureOf f [⟨0, 0, 1, 1⟩] data := by
  obtain ⟨hw, hh, hdepth, htype, hplain⟩ := header_fields p
  have hpasses : Pass.all (byteAt (header p) 12 == 1) = [⟨0, 0, 1, 1⟩] := by
    rw [hplain]
    rfl
  simp only [readChunks, hheader, hdata, hpasses]
  exact ⟨_, ⟨hw, hh, hdepth, htype⟩, rfl⟩

/-- **What is written of a picture is read as that picture.** -/
theorem decode_encode (p : Picture) : decode (encode p) = .ok p := by
  have hjudged : Nat.min 8 ((encode p).size / 4 * 4) = 8 := by
    have hsize : 8 ≤ (encode p).size := by
      rw [encode_eq, ByteArray.size_append]
      exact Nat.le_add_right _ _
    show min _ _ = _
    omega
  have hsigned : (encode p).extract 0 8 = signature := by
    rw [encode_eq]
    exact ByteArray.extract_append_eq_left rfl
  have hsignature : (signature != signature.extract 0 8) = false := by decide
  have hdata : inflate ((((fileChunks p).map fun c => (chunkCode c.1, c.2)).filter (·.1 == chunkCode "IDAT")).foldl
      (fun out c => out ++ c.2) ByteArray.empty) = some (scanlines p) := by
    rw [foldl_filter_fileChunks, inflate_deflate]
  obtain ⟨f, hf, hread⟩ := readChunks_of_lookup (lookup_header p) hdata
  rw [decode]
  simp only [hjudged, hsigned, hsignature, Bool.false_eq_true, if_false, chunksFrom_encode, hread]
  exact pictureOf_scanlines hf

end
end PixelShader.Png
