import Qev.Lib.Utf8

/-! CBOR items of definite length, written with the shortest heads, and a
reader for them. Covers unsigned integers, byte strings, text, arrays, maps
and Booleans. -/

namespace Qev

inductive Cbor where
  | uint (n : UInt64)
  | bytes (b : Bytes)
  | text (s : String)
  | array (items : List Cbor)
  | map (entries : List (Cbor × Cbor))
  | bool (b : Bool)

namespace Cbor

/-- The head of an item: its major type and its argument. -/
def head (major n : Nat) : Bytes :=
  if n < 24 then [UInt8.ofNat (32 * major + n)]
  else if n < 2 ^ 8 then UInt8.ofNat (32 * major + 24) :: beBytes 1 n
  else if n < 2 ^ 16 then UInt8.ofNat (32 * major + 25) :: beBytes 2 n
  else if n < 2 ^ 32 then UInt8.ofNat (32 * major + 26) :: beBytes 4 n
  else UInt8.ofNat (32 * major + 27) :: beBytes 8 n

/-- How many bytes `head` takes for the argument `n`. -/
def headSize (n : Nat) : Nat :=
  if n < 24 then 1 else if n < 2 ^ 8 then 2 else if n < 2 ^ 16 then 3
  else if n < 2 ^ 32 then 5 else 9

def textBytes (s : String) : Bytes := Utf8.encode s.toList

mutual
def encode : Cbor → Bytes
  | uint n => head 0 n.toNat
  | bytes b => head 2 b.length ++ b
  | text s => head 3 (textBytes s).length ++ textBytes s
  | array items => head 4 items.length ++ encodeItems items
  | map entries => head 5 entries.length ++ encodeEntries entries
  | bool b => [if b then 0xF5 else 0xF4]
def encodeItems : List Cbor → Bytes
  | [] => []
  | x :: xs => encode x ++ encodeItems xs
def encodeEntries : List (Cbor × Cbor) → Bytes
  | [] => []
  | (k, v) :: es => encode k ++ encode v ++ encodeEntries es
end

/-! ## Sizes -/

theorem head_length (major n : Nat) : (head major n).length = headSize n := by
  unfold head headSize
  split_ifs <;> simp

theorem headSize_le (n : Nat) : headSize n ≤ 9 := by
  unfold headSize
  repeat' split
  all_goals omega

theorem headSize_pos (n : Nat) : 0 < headSize n := by
  unfold headSize
  split_ifs <;> omega

@[simp] theorem length_uint (n : UInt64) : (encode (uint n)).length = headSize n.toNat := by
  simp [encode, head_length]

@[simp] theorem length_bytes (b : Bytes) :
    (encode (bytes b)).length = headSize b.length + b.length := by
  simp [encode, head_length]

@[simp] theorem length_text (s : String) :
    (encode (text s)).length = headSize (textBytes s).length + (textBytes s).length := by
  simp [encode, head_length]

@[simp] theorem length_bool (b : Bool) : (encode (bool b)).length = 1 := by simp [encode]

theorem encodeItems_eq (xs : List Cbor) : encodeItems xs = xs.flatMap encode := by
  induction xs with
  | nil => rfl
  | cons x xs ih => simp [encodeItems, ih]

theorem encodeEntries_eq (es : List (Cbor × Cbor)) :
    encodeEntries es = es.flatMap (fun e => encode e.1 ++ encode e.2) := by
  induction es with
  | nil => rfl
  | cons e es ih => simp [encodeEntries, ih]

@[simp] theorem length_array (xs : List Cbor) :
    (encode (array xs)).length =
      headSize xs.length + (xs.map (fun x => (encode x).length)).sum := by
  simp [encode, head_length, encodeItems_eq, List.length_flatMap]

@[simp] theorem length_map (es : List (Cbor × Cbor)) :
    (encode (map es)).length = headSize es.length +
      (es.map (fun e => (encode e.1).length + (encode e.2).length)).sum := by
  simp [encode, head_length, encodeEntries_eq, List.length_flatMap]

theorem encode_length_pos (x : Cbor) : 0 < (encode x).length := by
  cases x with
  | bool b => simp
  | uint n => simpa using headSize_pos n.toNat
  | bytes b => have := headSize_pos b.length; simp; omega
  | text s => have := headSize_pos (textBytes s).length; simp; omega
  | array xs => have := headSize_pos xs.length; simp; omega
  | map es => have := headSize_pos es.length; simp; omega

/-! ## Reading -/

def takeN (n : Nat) (bs : Bytes) : Option (Bytes × Bytes) :=
  if n ≤ bs.length then some (bs.take n, bs.drop n) else none

/-- The argument in the low five bits `info` and the bytes after them. -/
def readArg (info : Nat) (bs : Bytes) : Option (Nat × Bytes) :=
  let wide (k : Nat) := (takeN k bs).map (fun (b, rest) => (beNat b, rest))
  if info < 24 then some (info, bs)
  else match info with
    | 24 => wide 1
    | 25 => wide 2
    | 26 => wide 4
    | 27 => wide 8
    | _ => none

def readHead : Bytes → Option (Nat × Nat × Bytes)
  | [] => none
  | b :: bs => (readArg (b.toNat % 32) bs).map (fun (n, rest) => (b.toNat / 32, n, rest))

mutual
def read : Nat → Bytes → Option (Cbor × Bytes)
  | 0, _ => none
  | fuel + 1, bs =>
    match readHead bs with
    | none => none
    | some (0, n, rest) => some (uint (UInt64.ofNat n), rest)
    | some (2, n, rest) => (takeN n rest).map (fun (b, rest) => (bytes b, rest))
    | some (3, n, rest) =>
      match takeN n rest with
      | none => none
      | some (b, rest) => (Utf8.decode b).map (fun s => (text (String.ofList s), rest))
    | some (4, n, rest) => (readItems fuel n rest).map (fun (xs, rest) => (array xs, rest))
    | some (5, n, rest) => (readEntries fuel n rest).map (fun (es, rest) => (map es, rest))
    | some (7, 20, rest) => some (bool false, rest)
    | some (7, 21, rest) => some (bool true, rest)
    | some _ => none
def readItems : Nat → Nat → Bytes → Option (List Cbor × Bytes)
  | _, 0, bs => some ([], bs)
  | 0, _ + 1, _ => none
  | fuel + 1, n + 1, bs =>
    match read fuel bs with
    | none => none
    | some (x, rest) => (readItems fuel n rest).map (fun (xs, rest) => (x :: xs, rest))
def readEntries : Nat → Nat → Bytes → Option (List (Cbor × Cbor) × Bytes)
  | _, 0, bs => some ([], bs)
  | 0, _ + 1, _ => none
  | fuel + 1, n + 1, bs =>
    match read fuel bs with
    | none => none
    | some (k, rest) =>
      match read fuel rest with
      | none => none
      | some (v, rest) => (readEntries fuel n rest).map (fun (es, rest) => ((k, v) :: es, rest))
end

/-- One item, which must be all of the input. -/
def decode (bs : Bytes) : Option Cbor :=
  match read (2 * bs.length) bs with
  | some (x, []) => some x
  | _ => none

/-! ## Reading what was written -/

mutual
/-- Every length in the item has a head. -/
def Fits : Cbor → Prop
  | uint _ => True
  | bytes b => b.length < 2 ^ 64
  | text s => (textBytes s).length < 2 ^ 64
  | array items => items.length < 2 ^ 64 ∧ FitsItems items
  | map entries => entries.length < 2 ^ 64 ∧ FitsEntries entries
  | bool _ => True
def FitsItems : List Cbor → Prop
  | [] => True
  | x :: xs => Fits x ∧ FitsItems xs
def FitsEntries : List (Cbor × Cbor) → Prop
  | [] => True
  | (k, v) :: es => (Fits k ∧ Fits v) ∧ FitsEntries es
end

mutual
/-- An item whose encoding is shorter than 2^64 bytes has only such lengths. -/
theorem fits_of_length : (x : Cbor) → (encode x).length < 2 ^ 64 → Fits x
  | uint _, _ => trivial
  | bool _, _ => trivial
  | bytes b, h => by simp only [length_bytes] at h; simp only [Fits]; omega
  | text s, h => by simp only [length_text] at h; simp only [Fits]; omega
  | array xs, h => by
    simp only [encode, List.length_append] at h
    have ⟨count, items⟩ := fitsItems_of_length xs (by omega)
    exact ⟨by omega, items⟩
  | map es, h => by
    simp only [encode, List.length_append] at h
    have ⟨count, entries⟩ := fitsEntries_of_length es (by omega)
    exact ⟨by omega, entries⟩
theorem fitsItems_of_length : (xs : List Cbor) → (encodeItems xs).length < 2 ^ 64 →
    xs.length ≤ (encodeItems xs).length ∧ FitsItems xs
  | [], _ => ⟨Nat.le_refl _, trivial⟩
  | x :: xs, h => by
    simp only [encodeItems, List.length_append] at h ⊢
    have pos := encode_length_pos x
    have ⟨count, items⟩ := fitsItems_of_length xs (by omega)
    exact ⟨by simp only [List.length_cons]; omega, fits_of_length x (by omega), items⟩
theorem fitsEntries_of_length : (es : List (Cbor × Cbor)) → (encodeEntries es).length < 2 ^ 64 →
    es.length ≤ (encodeEntries es).length ∧ FitsEntries es
  | [], _ => ⟨Nat.le_refl _, trivial⟩
  | (k, v) :: es, h => by
    simp only [encodeEntries, List.length_append] at h ⊢
    have pos := encode_length_pos k
    have ⟨count, entries⟩ := fitsEntries_of_length es (by omega)
    exact ⟨by simp only [List.length_cons]; omega,
      ⟨fits_of_length k (by omega), fits_of_length v (by omega)⟩, entries⟩
end

theorem takeN_append (b rest : Bytes) : takeN b.length (b ++ rest) = some (b, rest) := by
  simp [takeN]

theorem takeN_beBytes (k n : Nat) (rest : Bytes) :
    takeN k (beBytes k n ++ rest) = some (beBytes k n, rest) := by
  simpa using takeN_append (beBytes k n) rest

theorem readHead_cons {major i : Nat} (hm : major < 8) (hi : i < 32) (bs : Bytes) :
    readHead (UInt8.ofNat (32 * major + i) :: bs) =
      (readArg i bs).map (fun (n, rest) => (major, n, rest)) := by
  have low : (UInt8.ofNat (32 * major + i)).toNat % 32 = i := by
    rw [UInt8.toNat_ofNat']; omega
  have high : (UInt8.ofNat (32 * major + i)).toNat / 32 = major := by
    rw [UInt8.toNat_ofNat']; omega
  rw [readHead, low, high]

theorem readHead_head {major n : Nat} (hm : major < 8) (hn : n < 2 ^ 64) (rest : Bytes) :
    readHead (head major n ++ rest) = some (major, n, rest) := by
  unfold head
  split_ifs with h0 h1 h2 h4
  · simp only [List.cons_append, List.nil_append, readHead_cons hm (by omega : n < 32)]
    simp [readArg, h0]
  · simp only [List.cons_append, readHead_cons hm (by omega : 24 < 32)]
    simp [readArg, takeN_beBytes, beNat_beBytes 1 n (by omega)]
  · simp only [List.cons_append, readHead_cons hm (by omega : 25 < 32)]
    simp [readArg, takeN_beBytes, beNat_beBytes 2 n (by omega)]
  · simp only [List.cons_append, readHead_cons hm (by omega : 26 < 32)]
    simp [readArg, takeN_beBytes, beNat_beBytes 4 n (by omega)]
  · simp only [List.cons_append, readHead_cons hm (by omega : 27 < 32)]
    simp [readArg, takeN_beBytes, beNat_beBytes 8 n (by omega)]

/-- Fuel is spent once per item and once per level, so twice the written
length is enough. -/
theorem read_encode (fuel : Nat) :
    (∀ x rest, Fits x → 2 * (encode x).length ≤ fuel →
      read fuel (encode x ++ rest) = some (x, rest)) ∧
    (∀ xs rest, FitsItems xs → 2 * (encodeItems xs).length + 1 ≤ fuel →
      readItems fuel xs.length (encodeItems xs ++ rest) = some (xs, rest)) ∧
    (∀ es rest, FitsEntries es → 2 * (encodeEntries es).length + 1 ≤ fuel →
      readEntries fuel es.length (encodeEntries es ++ rest) = some (es, rest)) := by
  induction fuel with
  | zero =>
    refine ⟨fun x _ _ h => ?_, fun _ _ _ h => by omega, fun _ _ _ h => by omega⟩
    have := encode_length_pos x
    omega
  | succ fuel ih =>
    obtain ⟨item, items, entries⟩ := ih
    refine ⟨fun x rest fits enough => ?_, fun xs rest fits enough => ?_,
      fun es rest fits enough => ?_⟩
    · cases x with
      | uint n =>
        simp only [encode, read, readHead_head (by omega : 0 < 8) n.toNat_lt, UInt64.ofNat_toNat]
      | bytes b =>
        rw [encode, read, List.append_assoc, readHead_head (by omega) fits]
        simp [takeN_append]
      | text s =>
        rw [encode, read, List.append_assoc, readHead_head (by omega) fits]
        simp [takeN_append, textBytes, Utf8.decode_encode]
      | array xs =>
        have short : 2 * (encodeItems xs).length + 1 ≤ fuel := by
          have := headSize_pos xs.length
          simp only [encode, List.length_append, head_length] at enough
          omega
        rw [encode, read, List.append_assoc, readHead_head (by omega) fits.1]
        simp [items xs rest fits.2 short]
      | map es =>
        have short : 2 * (encodeEntries es).length + 1 ≤ fuel := by
          have := headSize_pos es.length
          simp only [encode, List.length_append, head_length] at enough
          omega
        rw [encode, read, List.append_assoc, readHead_head (by omega) fits.1]
        simp [entries es rest fits.2 short]
      | bool b => cases b <;> rfl
    · cases xs with
      | nil => simp [encodeItems, readItems]
      | cons x xs =>
        have pos := encode_length_pos x
        simp only [encodeItems, List.length_append] at enough
        simp only [encodeItems, List.length_cons, readItems, List.append_assoc]
        rw [item x _ fits.1 (by omega)]
        simp [items xs rest fits.2 (by omega)]
    · cases es with
      | nil => simp [encodeEntries, readEntries]
      | cons e es =>
        obtain ⟨k, v⟩ := e
        have pos := encode_length_pos k
        simp only [encodeEntries, List.length_append] at enough
        simp only [encodeEntries, List.length_cons, readEntries, List.append_assoc]
        rw [item k _ fits.1.1 (by omega)]
        simp only
        rw [item v _ fits.1.2 (by omega)]
        simp [entries es rest fits.2 (by omega)]

theorem decode_encode {x : Cbor} (short : (encode x).length < 2 ^ 64) :
    decode (encode x) = some x := by
  have h := (read_encode (2 * (encode x).length)).1 x [] (fits_of_length x short) (Nat.le_refl _)
  rw [List.append_nil] at h
  rw [decode, h]

end Cbor

end Qev
