import Mathlib
import PixelShader.Proofs.Png.Bits
/-!
# What is compressed is decompressed

While data is decompressed, what has come out is a first part of the data.  A literal makes it longer by its byte, and a
copy by bytes that were found to be repeated (`copyBack_extract`).  The bits that say so are read back as they were
written: codewords by trying them all (`reads_symbol`), and lengths and distances because the ranges of the tables
leave out none (`symbolOf_spec`).  A copy can take far fewer bits than it brings bytes, so it is the bits that bound
the reading (`BitWriter.Completes`).
-/
namespace PixelShader.Png

/-! ## Codewords -/

/-- The place of the symbol whose codeword the bits are, if they are one. -/
def indexFrom (counts : Array Nat) (code first index : Nat) : List Nat → List Nat → Option Nat
  | length :: lengths, bit :: bits =>
    let count := counts.getD length 0
    if code + bit < first + count then if bits.isEmpty then some (index + (code + bit - first)) else none
    else indexFrom counts (2 * (code + bit)) (2 * (first + count)) (index + count) lengths bits
  | _, _ => none

theorem PrefixCode.reads_of_indexFrom (c : PrefixCode) {place : Nat} : ∀ {lengths bits : List Nat}
    {code first index : Nat}, indexFrom c.counts code first index lengths bits = some place →
      Reads (c.readFrom code first index lengths) bits (c.symbols.getD place 0)
  | [], _, _, _, _, h => by cases h
  | _ :: _, [], _, _, _, h => by cases h
  | length :: lengths, bit :: bits, code, first, index, h => by
    have hbind : ∀ {symbol : Nat}, Reads (if code + bit < first + c.counts.getD length 0
        then pure (c.symbols.getD (index + (code + bit - first)) 0)
        else c.readFrom (2 * (code + bit)) (2 * (first + c.counts.getD length 0)) (index + c.counts.getD length 0) lengths)
          bits symbol → Reads (c.readFrom code first index (length :: lengths)) ([bit] ++ bits) symbol :=
      fun hrest => (reads_bit bit).bind hrest
    refine hbind ?_
    simp only [indexFrom] at h
    by_cases hlt : code + bit < first + c.counts.getD length 0
    · rw [if_pos hlt] at h ⊢
      split at h
      · rename_i hnil
        rw [List.isEmpty_iff.1 hnil, Option.some.inj h]
        exact reads_pure _
      · cases h
    · rw [if_neg hlt] at h ⊢
      exact c.reads_of_indexFrom h

def symbolBits (symbol : Nat) : List Nat :=
  if symbol < 144 then codewordBits 8 (0x30 + symbol)
  else if symbol < 256 then codewordBits 9 (0x100 + symbol)
  else if symbol < 280 then codewordBits 7 (symbol - 256)
  else codewordBits 8 (symbol - 88)

/-- The symbols with seven bits come first in the fixed code, then those with eight, then those with nine. -/
def symbolPlace (symbol : Nat) : Nat :=
  if symbol < 144 then symbol + 24 else if symbol < 256 then symbol + 32
  else if symbol < 280 then symbol - 256 else symbol - 112

theorem fixedLiterals_counts : fixedLiterals.counts = #[0, 0, 0, 0, 0, 0, 0, 24, 152, 112, 0, 0, 0, 0, 0, 0] := by
  decide +kernel

theorem fixedLiterals_symbols : fixedLiterals.symbols =
    (List.range' 256 24 ++ (List.range' 0 144 ++ (List.range' 280 8 ++ List.range' 144 112))).toArray :=
  congrArg List.toArray (by decide +kernel)

theorem fixedLiterals_indexFrom : ∀ symbol < 288,
    indexFrom fixedLiterals.counts 0 0 0 (List.range' 1 15) (symbolBits symbol) = some (symbolPlace symbol) := by
  rw [fixedLiterals_counts]
  decide +kernel

theorem getD_symbolPlace {symbol : Nat} (h : symbol < 288) :
    fixedLiterals.symbols.getD (symbolPlace symbol) 0 = symbol := by
  have hrange : ∀ start n i, (List.range' start n)[i]? = if i < n then some (start + i) else none := by
    intro start n i
    split
    · rename_i hi
      rw [List.getElem?_range' hi, Nat.one_mul]
    · rename_i hi
      rw [List.getElem?_eq_none]
      simpa using hi
  rw [fixedLiterals_symbols, Array.getD_eq_getD_getElem?, List.getElem?_toArray]
  simp only [List.getElem?_append, hrange, List.length_range']
  unfold symbolPlace
  split_ifs <;> simp <;> omega

theorem reads_symbol {symbol : Nat} (h : symbol < 288) : Reads fixedLiterals.read (symbolBits symbol) symbol := by
  have hread := fixedLiterals.reads_of_indexFrom (fixedLiterals_indexFrom symbol h)
  rwa [getD_symbolPlace h] at hread

theorem reads_distance {symbol : Nat} (h : symbol < 30) : Reads fixedDistances.read (codewordBits 5 symbol) symbol := by
  have hplace : ∀ symbol < 30,
      indexFrom fixedDistances.counts 0 0 0 (List.range' 1 15) (codewordBits 5 symbol) = some symbol ∧
        fixedDistances.symbols.getD symbol 0 = symbol := by decide +kernel
  have hread := fixedDistances.reads_of_indexFrom (hplace symbol h).1
  rwa [(hplace symbol h).2] at hread

theorem length_symbolBits_pos (symbol : Nat) : 0 < (symbolBits symbol).length := by
  unfold symbolBits
  split_ifs <;> simp

/-! ## Ranges -/

/-- Where the ranges of a table follow one another without a gap, a value is in the range of its symbol. -/
theorem exists_getElem?_countP {value : Nat} : ∀ {l : List (Nat × Nat)},
    l.IsChain (fun e f => e.1 < f.1 ∧ f.1 ≤ e.1 + 2 ^ e.2) → (∀ e ∈ l.head?, e.1 ≤ value) →
      (∀ e ∈ l.getLast?, value < e.1 + 2 ^ e.2) → l ≠ [] →
        ∃ e, l[l.countP (·.1 ≤ value) - 1]? = some e ∧ e.1 ≤ value ∧ value < e.1 + 2 ^ e.2
  | [], _, _, _, hne => absurd rfl hne
  | [e], _, hhead, hlast, _ => by
    have hle : e.1 ≤ value := hhead e rfl
    exact ⟨e, by simp [hle], hle, hlast e rfl⟩
  | e :: f :: l, hchain, hhead, hlast, _ => by
    obtain ⟨⟨hlt, hnext⟩, hrest⟩ := List.isChain_cons_cons.1 hchain
    have hle : e.1 ≤ value := hhead e rfl
    by_cases hf : f.1 ≤ value
    · obtain ⟨g, hget, hg⟩ := exists_getElem?_countP hrest (fun e he => by cases he; exact hf)
        (fun e he => hlast e (by rwa [List.getLast?_cons_cons])) (List.cons_ne_nil f l)
      refine ⟨g, ?_, hg⟩
      have hpos : 0 < (f :: l).countP (·.1 ≤ value) := List.countP_pos_iff.2 ⟨f, List.mem_cons_self, by simpa using hf⟩
      rw [List.countP_cons_of_pos (by simpa using hle), Nat.add_sub_cancel, ← Nat.sub_add_cancel hpos]
      exact hget
    · -- the ranges behind begin even further up
      have hpair : (f :: l).Pairwise fun e f => e.1 < f.1 :=
        List.isChain_iff_pairwise.1 (hrest.imp fun _ _ h => h.1)
      have hnone : (f :: l).countP (·.1 ≤ value) = 0 := by
        refine List.countP_eq_zero.2 fun g hg => ?_
        rcases List.mem_cons.1 hg with rfl | hg
        · simpa using hf
        · have := (List.pairwise_cons.1 hpair).1 g hg
          simp only [decide_eq_true_eq]
          omega
      refine ⟨e, ?_, hle, by omega⟩
      rw [List.countP_cons_of_pos (by simpa using hle), hnone]
      rfl

structure Covers (table : Array (Nat × Nat)) (least most : Nat) : Prop where
  chain : table.toList.IsChain fun e f => e.1 < f.1 ∧ f.1 ≤ e.1 + 2 ^ e.2
  first : ∀ e ∈ table.toList.head?, e.1 ≤ least
  last : ∀ e ∈ table.toList.getLast?, most < e.1 + 2 ^ e.2
  nonempty : table.toList ≠ []

theorem covers_lengthTable : Covers lengthTable 3 258 := ⟨by decide, by decide, by decide, by decide⟩

theorem covers_distanceTable : Covers distanceTable 1 32768 := ⟨by decide, by decide, by decide, by decide⟩

theorem symbolOf_eq_countP (table : Array (Nat × Nat)) (value : Nat) :
    symbolOf table value = table.toList.countP (·.1 ≤ value) - 1 := by
  have hfold : ∀ (l : List (Nat × Nat)) (n : Nat),
      l.foldl (fun n e => if e.1 ≤ value then n + 1 else n) n = n + l.countP (·.1 ≤ value) := by
    intro l
    induction l with
    | nil => exact fun _ => rfl
    | cons e l ih =>
      intro n
      rw [List.foldl_cons, ih, List.countP_cons]
      simp only [decide_eq_true_eq]
      split <;> omega
  rw [symbolOf, ← Array.foldl_toList, hfold, Nat.zero_add]

section
variable {table : Array (Nat × Nat)} {least most value : Nat}

theorem Covers.symbolOf_spec (h : Covers table least most) (hl : least ≤ value) (hm : value ≤ most) :
    ∃ base width, table[symbolOf table value]? = some (base, width) ∧ base ≤ value ∧ value < base + 2 ^ width := by
  obtain ⟨e, hget, he⟩ := exists_getElem?_countP h.chain (fun e he => (h.first e he).trans hl)
    (fun e he => Nat.lt_of_le_of_lt hm (h.last e he)) h.nonempty
  rw [← symbolOf_eq_countP, Array.getElem?_toList] at hget
  exact ⟨e.1, e.2, hget, he⟩

theorem Covers.symbolOf_lt (h : Covers table least most) (hl : least ≤ value) (hm : value ≤ most) :
    symbolOf table value < table.size := by
  obtain ⟨base, width, hget, -⟩ := h.symbolOf_spec hl hm
  exact (Array.getElem?_eq_some_iff.1 hget).1

def extraBits (table : Array (Nat × Nat)) (value : Nat) : List Nat :=
  let (base, width) := table.getD (symbolOf table value) (0, 0)
  numberBits width (value - base)

theorem Covers.reads_extra (h : Covers table least most) (hl : least ≤ value) (hm : value ≤ most) :
    Reads (readExtra table (symbolOf table value)) (extraBits table value) value := by
  obtain ⟨base, width, hget, hle, hlt⟩ := h.symbolOf_spec hl hm
  have hextra : value - base < 2 ^ width := by omega
  have hread := (reads_number hextra).bind_pure (f := (base + ·))
  simp only [extraBits, readExtra, Array.getD_eq_getD_getElem?, hget, Option.getD_some]
  rwa [Nat.add_sub_cancel' hle] at hread

end

/-! ## Copies -/

/-- The copy brings the bytes of the data at a position, and its length and distance can be said. -/
structure Copy.Brings (c : Copy) (data : ByteArray) (position : Nat) : Prop where
  length : c.length ≤ Copy.maxLength
  distance_pos : 0 < c.distance
  distance : c.distance ≤ Copy.maxDistance
  back : c.distance ≤ position
  size : position + c.length ≤ data.size
  bytes : ∀ n < c.length, byteAt data (position + n) = byteAt data (position + n - c.distance)

section
variable {data : ByteArray} {distances : List Nat} {position : Nat}

theorem Copy.repeats_spec (distance : Nat) : ∀ (bound position : Nat),
    repeats data distance position bound ≤ bound ∧ ∀ n < repeats data distance position bound,
      byteAt data (position + n) = byteAt data (position + n - distance)
  | 0, _ => ⟨Nat.le_refl 0, fun n hn => absurd hn (Nat.not_lt_zero n)⟩
  | bound + 1, position => by
    unfold repeats
    split
    · rename_i heq
      obtain ⟨hle, hbytes⟩ := repeats_spec distance bound (position + 1)
      refine ⟨Nat.succ_le_succ hle, fun n hn => ?_⟩
      cases n with
      | zero => exact heq
      | succ n =>
        have h := hbytes n (Nat.lt_of_succ_lt_succ hn)
        rwa [Nat.add_assoc, Nat.add_comm 1 n] at h
    · exact ⟨Nat.zero_le _, fun n hn => absurd hn (Nat.not_lt_zero n)⟩

theorem Copy.brings_longest (hd : ∀ d ∈ distances, 0 < d ∧ d ≤ maxDistance)
    (h : 0 < (longest data distances position).length) : (longest data distances position).Brings data position := by
  refine List.foldlRecOn (motive := fun c : Copy => 0 < c.length → c.Brings data position) distances _
    (fun h => absurd h (Nat.lt_irrefl 0)) (fun best hbest d hmem => ?_) h
  dsimp only
  by_cases hback : d ≤ position
  · obtain ⟨hle, hbytes⟩ := @repeats_spec data d (min maxLength (data.size - position)) position
    rw [if_pos hback]
    split
    · refine fun _ => ⟨?_, (hd d hmem).1, (hd d hmem).2, hback, ?_, hbytes⟩ <;> dsimp only <;> omega
    · exact hbest
  · rw [if_neg hback]
    exact hbest

theorem byteAt_extract_zero {n : Nat} (h : n < position) : byteAt (data.extract 0 position) n = byteAt data n := by
  rw [byteAt_eq, byteAt_eq, ByteArray.data_extract, Array.getElem?_extract, Nat.zero_add]
  split
  · rfl
  · rw [Array.getElem?_eq_none]
    have hsize : data.data.size = data.size := rfl
    omega

theorem push_extract (h : position < data.size) :
    (data.extract 0 position).push (UInt8.ofNat (byteAt data position)) = data.extract 0 (position + 1) := by
  have hbyte : UInt8.ofNat (byteAt data position) = data.data[position] := by
    rw [byteAt, dif_pos h, UInt8.ofNat_toNat, ByteArray.getElem_eq_getElem_data]
  rw [hbyte]
  apply ByteArray.ext
  rw [ByteArray.data_push, ByteArray.data_extract, ByteArray.data_extract, Array.push_extract_getElem, Nat.zero_min]

/-- **A copy of compared bytes makes a first part of the data longer.** -/
theorem copyBack_extract {distance : Nat} (hpos : 0 < distance) : ∀ (length position : Nat), distance ≤ position →
    position + length ≤ data.size →
    (∀ n < length, byteAt data (position + n) = byteAt data (position + n - distance)) →
      copyBack distance length (data.extract 0 position) = data.extract 0 (position + length)
  | 0, _, _, _, _ => rfl
  | length + 1, position, hback, hsize, hbytes => by
    have hlen : (data.extract 0 position).size = position := by
      rw [ByteArray.size_extract]
      omega
    have hbyte : byteAt data position = byteAt data (position - distance) := hbytes 0 (Nat.succ_pos length)
    rw [copyBack, hlen, byteAt_extract_zero (by omega), ← hbyte, push_extract (by omega),
      Nat.add_comm length 1, ← Nat.add_assoc]
    refine copyBack_extract hpos length (position + 1) (by omega) (by omega) fun n hn => ?_
    rw [Nat.add_right_comm]
    exact hbytes (n + 1) (Nat.succ_lt_succ hn)

end

/-! ## Blocks -/

def copyBits (c : Copy) : List Nat :=
  symbolBits (257 + symbolOf lengthTable c.length) ++ extraBits lengthTable c.length ++
    codewordBits 5 (symbolOf distanceTable c.distance) ++ extraBits distanceTable c.distance

theorem length_copyBits_pos (c : Copy) : 0 < (copyBits c).length := by
  have := length_symbolBits_pos (257 + symbolOf lengthTable c.length)
  simp only [copyBits, List.length_append]
  omega

section
variable {w : BitWriter} {bits : List Nat}

theorem BitWriter.Holds.symbol (symbol : Nat) (h : w.Holds bits) : (w.symbol symbol).Holds (bits ++ symbolBits symbol) := by
  unfold BitWriter.symbol symbolBits
  split_ifs
  · exact h.codeword 8 _
  · exact h.codeword 9 _
  · exact h.codeword 7 _
  · exact h.codeword 8 _

theorem BitWriter.Holds.copy (c : Copy) (h : w.Holds bits) : (w.copy c).Holds (bits ++ copyBits c) := by
  have hextra : ∀ {w : BitWriter} {bits : List Nat} (table : Array (Nat × Nat)) (value : Nat), w.Holds bits →
      (w.extra table value).Holds (bits ++ extraBits table value) := fun _ _ h => h.number _ _
  have hcopy := hextra distanceTable c.distance
    ((hextra lengthTable c.length (h.symbol (257 + symbolOf lengthTable c.length))).codeword 5
      (symbolOf distanceTable c.distance))
  simpa only [copyBits, BitWriter.copy, List.append_assoc] using hcopy

end

section
variable {fuel : Nat} {out : ByteArray} {more : List Nat} {result : ByteArray}

theorem reads_end (fuel : Nat) (out : ByteArray) :
    Reads (codedBlock fixedLiterals fixedDistances (fuel + 1) out) (symbolBits 256) out := by
  have h : Reads (codedBlock fixedLiterals fixedDistances (fuel + 1) out) (symbolBits 256 ++ []) out :=
    (reads_symbol (by decide)).bind (reads_pure out)
  rwa [List.append_nil] at h

theorem reads_literal {byte : Nat} (hbyte : byte < 256)
    (h : Reads (codedBlock fixedLiterals fixedDistances fuel (out.push (UInt8.ofNat byte))) more result) :
    Reads (codedBlock fixedLiterals fixedDistances (fuel + 1) out) (symbolBits byte ++ more) result := by
  refine (reads_symbol (by omega)).bind ?_
  rwa [if_pos hbyte]

theorem reads_copy {c : Copy} {data : ByteArray} {position : Nat} (hc : c.Brings data position) (hlong : 3 ≤ c.length)
    (hsize : out.size = position)
    (h : Reads (codedBlock fixedLiterals fixedDistances fuel (copyBack c.distance c.length out)) more result) :
    Reads (codedBlock fixedLiterals fixedDistances (fuel + 1) out) (copyBits c ++ more) result := by
  have hlength := covers_lengthTable.symbolOf_lt hlong hc.length
  have hdistance := covers_distanceTable.symbolOf_lt hc.distance_pos hc.distance
  have hsymbol : 257 + symbolOf lengthTable c.length < 288 := by
    have : lengthTable.size = 29 := rfl
    omega
  have hback : ¬ out.size < c.distance := by
    have := hc.back
    omega
  rw [copyBits, List.append_assoc, List.append_assoc, List.append_assoc]
  refine (reads_symbol hsymbol).bind ?_
  rw [if_neg (by omega), if_neg (by omega), Nat.add_sub_cancel_left]
  refine (covers_lengthTable.reads_extra hlong hc.length).bind ((reads_distance hdistance).bind
    ((covers_distanceTable.reads_extra hc.distance_pos hc.distance).bind ?_))
  rwa [if_neg hback]

end

section
variable {data : ByteArray} {distances : List Nat}

theorem byteAt_lt (bytes : ByteArray) (n : Nat) : byteAt bytes n < 256 := by
  unfold byteAt
  split
  · exact UInt8.toNat_lt _
  · decide

/-- Behind `bits` the writer holds bits that make `out` the whole of the data.  Each literal and each copy takes a bit at
least, so it is enough to read on as often as there are bits. -/
def BitWriter.Completes (w : BitWriter) (data : ByteArray) (bits : List Nat) (out : ByteArray) : Prop :=
  ∃ more, w.Holds (bits ++ more) ∧ ∀ fuel, more.length < fuel →
    Reads (codedBlock fixedLiterals fixedDistances fuel out) (more ++ symbolBits 256) data

theorem BitWriter.Completes.prepend {w : BitWriter} {bits token : List Nat} {out next : ByteArray}
    (h : w.Completes data (bits ++ token) next) (htoken : 0 < token.length)
    (hturn : ∀ {fuel more}, Reads (codedBlock fixedLiterals fixedDistances fuel next) more data →
      Reads (codedBlock fixedLiterals fixedDistances (fuel + 1) out) (token ++ more) data) :
    w.Completes data bits out := by
  obtain ⟨more, hmore, hread⟩ := h
  refine ⟨token ++ more, by rwa [← List.append_assoc], fun fuel hfuel => ?_⟩
  rw [List.length_append] at hfuel
  obtain ⟨fuel, rfl⟩ := Nat.exists_eq_succ_of_ne_zero (Nat.ne_zero_of_lt hfuel)
  rw [List.append_assoc]
  exact hturn (hread fuel (by omega))

/-- **The bits of compressed bytes make what came out so far the whole of the data.** -/
theorem completes_compress (hd : ∀ d ∈ distances, 0 < d ∧ d ≤ Copy.maxDistance) : ∀ (n covered : Nat) {w : BitWriter}
    {bits : List Nat}, w.Holds bits → covered ≤ n → n ≤ data.size →
      (w.compress data distances n covered).Completes data bits (data.extract 0 (data.size - n + covered))
  | 0, covered, w, bits, hw, hc, _ => by
    refine ⟨[], (List.append_nil bits).symm ▸ hw, fun fuel hfuel => ?_⟩
    obtain ⟨fuel, rfl⟩ := Nat.exists_eq_succ_of_ne_zero (Nat.ne_of_gt hfuel)
    obtain rfl : covered = 0 := Nat.le_zero.1 hc
    have hall : data.extract 0 (data.size - 0 + 0) = data := ByteArray.extract_zero_size
    rw [hall]
    exact reads_end fuel data
  | n + 1, covered + 1, w, bits, hw, hc, hn => by
    have hout : data.size - (n + 1) + (covered + 1) = data.size - n + covered := by omega
    rw [hout]
    exact completes_compress hd n covered hw (by omega) (by omega)
  | n + 1, 0, w, bits, hw, _, hn => by
    obtain ⟨position, hp⟩ : ∃ position, position = data.size - (n + 1) := ⟨_, rfl⟩
    have hlt : position < data.size := by omega
    simp only [BitWriter.compress, ← hp, Nat.add_zero]
    by_cases hshort : (Copy.longest data distances position).length < 3
    · rw [if_pos hshort]
      have hrest := completes_compress hd n 0 (hw.symbol (byteAt data position)) (Nat.zero_le n) (by omega)
      have hnext : data.size - n + 0 = position + 1 := by omega
      rw [hnext, ← push_extract hlt] at hrest
      exact hrest.prepend (length_symbolBits_pos _) (reads_literal (byteAt_lt data position))
    · rw [if_neg hshort]
      have hbrings := @Copy.brings_longest data distances position hd (by omega)
      generalize Copy.longest data distances position = found at hbrings hshort ⊢
      have hsize := hbrings.size
      have hrest := completes_compress hd n (found.length - 1) (hw.copy found) (by omega) (by omega)
      have hnext : data.size - n + (found.length - 1) = position + found.length := by omega
      rw [hnext, ← copyBack_extract hbrings.distance_pos _ _ hbrings.back hsize hbrings.bytes] at hrest
      exact hrest.prepend (length_copyBits_pos found)
        (reads_copy hbrings (Nat.not_lt.1 hshort) (by rw [ByteArray.size_extract]; omega))

theorem reads_blocks {fuel : Nat} {bits : List Nat}
    (h : Reads (codedBlock fixedLiterals fixedDistances (fuel + 1) .empty) bits data) :
    Reads (blocks (fuel + 1) .empty) (numberBits 1 1 ++ (numberBits 2 1 ++ bits)) data :=
  (reads_bit 1).bind ((reads_number (by decide)).bind h.bind_pure)

/-- **What is compressed is decompressed to itself**, wherever copies are looked for. -/
theorem inflate_deflate (distances : List Nat) (data : ByteArray) : inflate (deflate distances data) = some data := by
  have hd : ∀ d ∈ distances.filter (fun d => 0 < d && d ≤ Copy.maxDistance), 0 < d ∧ d ≤ Copy.maxDistance := by
    intro d hd
    simpa using (List.mem_filter.1 hd).2
  have hstart := ((BitWriter.holds_ofBytes ⟨#[0x78, 0x01]⟩).number 1 1).number 2 1
  obtain ⟨more, hmore, hread⟩ := completes_compress hd data.size 0 hstart (Nat.zero_le _) (Nat.le_refl _)
  have hempty : data.extract 0 (data.size - data.size + 0) = .empty := by
    rw [Nat.sub_self]
    exact ByteArray.extract_same
  rw [hempty] at hread
  obtain ⟨behind, hbits⟩ := (hmore.symbol 256).finish.trans (List.prefix_append _ (bitsOf (bigEndian (adler data))))
  rw [← bitsOf_append] at hbits
  change _ = bitsOf (deflate distances data) at hbits
  generalize deflate distances data = packed at hbits ⊢
  have hlen : more.length < 8 * packed.size := by
    have hsize := congrArg List.length hbits
    simp only [List.length_append, length_numberBits, length_bitsOf] at hsize
    omega
  obtain ⟨fuel, hfuel⟩ := Nat.exists_eq_succ_of_ne_zero (Nat.ne_zero_of_lt hlen)
  rw [hfuel] at hlen
  -- the first two bytes are passed over
  have hnext : numberBits 1 1 ++ (numberBits 2 1 ++ (more ++ symbolBits 256)) <+: (Bits.mk packed 16).rest := by
    refine ⟨behind, ?_⟩
    simp only [List.append_assoc] at hbits
    rw [Bits.rest, ← hbits]
    simp only [List.append_assoc]
    have hheader : (bitsOf ⟨#[0x78, 0x01]⟩).length = 16 := length_bitsOf _
    exact (List.drop_left' hheader).symm
  rw [inflate, hfuel, reads_blocks (hread _ hlen) _ hnext]
  rfl

end
end PixelShader.Png
