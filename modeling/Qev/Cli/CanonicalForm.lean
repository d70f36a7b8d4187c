import Qev.Cli.Canonical
import Qev.Lib.JsonOrder

/-! One text for each value: where base64url and canonical JSON have it, and
where different fields denote the same bytes or different values share a text. -/

namespace Qev.Cli

open Js (JsString js)

/-! ## Base64url -/

def sextetOf (u : UInt16) : Nat := (Base64.val64 (Char.ofNat u.toNat)).getD 0

/-- The text fills its bytes: no character is left over, and no bit that is not
zero. -/
def Filled (s : JsString) : Prop := Base64.Filled (s.map sextetOf)

instance (s : JsString) : Decidable (Filled s) := inferInstanceAs (Decidable (Base64.Filled _))

theorem map_sextetOf {ns : List Nat} (small : ∀ n ∈ ns, n < 64) :
    (ns.map fun n => Js.ascii (Base64.char64 n)).map sextetOf = ns := by
  have each : ∀ n ∈ ns, (sextetOf ∘ fun n => Js.ascii (Base64.char64 n)) n = id n := by
    intro n mem
    rw [Function.comp_apply, sextetOf, Js.ofNat_ascii (Base64.char64_mem (small n mem)),
      Base64.val64_char64 (small n mem)]
    rfl
  rw [List.map_map, List.map_congr_left each, List.map_id]

theorem ascii_ofNat {u : UInt16} (small : u.toNat < 128) : Js.ascii (Char.ofNat u.toNat) = u := by
  rw [Js.ascii, Utf16.toNat_char (.inl (by omega)), UInt16.ofNat_toNat]

theorem mapM_val64_eq_some {cs : List Char} {ns : List Nat} (h : cs.mapM Base64.val64 = some ns) :
    (∀ n ∈ ns, n < 64) ∧ ns.map Base64.char64 = cs := by
  induction cs generalizing ns with
  | nil =>
    cases h
    exact ⟨List.forall_mem_nil _, rfl⟩
  | cons c cs ih =>
    rw [List.mapM_cons, Option.bind_eq_bind, Option.bind_eq_some_iff] at h
    obtain ⟨n, value, h⟩ := h
    obtain ⟨later, rest, same⟩ := Option.bind_eq_some_iff.mp h
    cases same
    obtain ⟨small, char⟩ := Base64.val64_eq_some value
    obtain ⟨others, chars⟩ := ih rest
    exact ⟨List.forall_mem_cons.mpr ⟨small, others⟩, by rw [List.map_cons, char, chars]⟩

theorem b64urlDecode_eq_ok {s : JsString} {bytes : Bytes} (unpadded : Js.ascii '=' ∉ s)
    (h : b64urlDecode s = .ok bytes) : ∃ ns : List Nat, (∀ n ∈ ns, n < 64) ∧
      s = ns.map (fun n => Js.ascii (Base64.char64 n)) ∧ bytes = Base64.octets ns := by
  have body : s.rdropWhile (· = Js.ascii '=') = s := by
    rw [List.rdropWhile_eq_self_iff]
    intro nonempty
    rw [decide_eq_true_eq]
    intro last
    exact unpadded (last ▸ List.getLast_mem nonempty)
  rw [b64urlDecode, body, b64urlChars] at h
  split_ifs at h with plain
  · rw [Option.bind_some] at h
    cases decoded : Base64.decode (s.map fun u => Char.ofNat u.toNat) with
    | none =>
      rw [decoded] at h
      cases h
    | some bytes' =>
      rw [decoded] at h
      cases h
      obtain ⟨ns, values, rfl⟩ := Option.map_eq_some_iff.mp decoded
      obtain ⟨small, chars⟩ := mapM_val64_eq_some values
      refine ⟨ns, small, ?_, rfl⟩
      have units : ∀ u ∈ s, Js.ascii (Char.ofNat u.toNat) = u := by
        intro u mem
        have ascii := List.all_eq_true.mp plain u mem
        rw [isB64url, Bool.and_eq_true, decide_eq_true_eq] at ascii
        exact ascii_ofNat ascii.1
      have written : s = (s.map fun u => Char.ofNat u.toNat).map Js.ascii := by
        rw [List.map_map]
        exact ((List.map_congr_left units).trans (List.map_id s)).symm
      rw [← chars, List.map_map] at written
      exact written
  · cases h

theorem b64urlEncode_octets_iff {ns : List Nat} (small : ∀ n ∈ ns, n < 64) :
    b64urlEncode (Base64.octets ns) = ns.map (fun n => Js.ascii (Base64.char64 n)) ↔
      Filled (ns.map fun n => Js.ascii (Base64.char64 n)) := by
  have encoded : b64urlEncode (Base64.octets ns) =
      (Base64.sextets (Base64.octets ns)).map fun n => Js.ascii (Base64.char64 n) := by
    rw [b64urlEncode, Base64.encode, List.map_map]
    rfl
  rw [encoded, Filled, map_sextetOf small, ← Base64.sextets_octets_iff small]
  constructor
  · intro same
    have back := congrArg (List.map sextetOf) same
    rwa [map_sextetOf (Base64.sextets_lt _), map_sextetOf small] at back
  · intro same
    rw [same]

/-- Bytes read back, and text is written again as it was just where it fills the
bytes that it is read as: of such texts there is one for each. -/
theorem b64url_canonical_iff (b : Bytes) (s : JsString) : b64urlDecode (b64urlEncode b) = .ok b ∧
    (Js.ascii '=' ∉ s → b64urlDecode s = .ok b → (b64urlEncode b = s ↔ Filled s) ∧
      ∀ t, Js.ascii '=' ∉ t → b64urlDecode t = .ok b → Filled s → (t = s ↔ Filled t)) := by
  have canonical {s : JsString} (unpadded : Js.ascii '=' ∉ s) (decoded : b64urlDecode s = .ok b) :
      b64urlEncode b = s ↔ Filled s := by
    obtain ⟨ns, small, rfl, rfl⟩ := b64urlDecode_eq_ok unpadded decoded
    exact b64urlEncode_octets_iff small
  refine ⟨b64urlDecode_b64urlEncode b, fun unpadded decoded => ⟨canonical unpadded decoded, ?_⟩⟩
  intro t unpadded' decoded' filled
  rw [← (canonical unpadded decoded).mpr filled, ← canonical unpadded' decoded', eq_comm]

theorem b64url_canonical_one_byte : b64urlEncode [1] = js "AQ" ∧ ¬ Filled (js "AR") := by
  have written := ((b64url_canonical_iff [1] (js "AQ")).2 (by decide) rfl).1.mpr (by decide)
  refine ⟨written, fun filled => ?_⟩
  exact absurd (((b64url_canonical_iff [1] (js "AR")).2 (by decide) rfl).1.mpr filled) (by
    rw [written]
    decide)

/-- Bits that no byte takes are read past. -/
theorem trailing_bits_dropped : ¬ ∀ (s : JsString) (b : Bytes), Js.ascii '=' ∉ s →
    b64urlDecode s = .ok b → b64urlEncode b = s := by
  intro all
  have written := all (js "AR") [1] (by decide) rfl
  revert written
  decide

/-! ## Canonical JSON -/

open Json (Alike mapNumbers sortKeys)

/-- What `JSON.parse` returns. -/
def Parsed (v : Js.Value) : Prop := ∃ text, Js.parseJson text = some v

/-- Zero without its sign. -/
def unsigned : Double → Double
  | .finite negative bits => if bits.val = 0 then .finite false bits else .finite negative bits
  | x => x

/-- Equal as numbers, with one zero. -/
def SameNumber (x y : Double) : Prop := unsigned x = unsigned y

mutual
/-- The value with `null` in place of every number that is not finite. -/
def finite : Js.Value → Js.Value
  | .num (.finite negative bits) => .num (.finite negative bits)
  | .num _ => .null
  | .arr items => .arr (finiteItems items)
  | .obj fields => .obj (finiteFields fields)
  | .null => .null
  | .bool b => .bool b
  | .str s => .str s
def finiteItems : List Js.Value → List Js.Value
  | [] => []
  | x :: xs => finite x :: finiteItems xs
def finiteFields : List (JsString × Js.Value) → List (JsString × Js.Value)
  | [] => []
  | (k, v) :: es => (k, finite v) :: finiteFields es
end

mutual
theorem written_eq_finite : ∀ v : Js.Value, Js.written v = mapNumbers unsigned (finite v)
  | .num (.finite negative bits) => by
    rw [Js.written, Js.writtenNumber, finite, mapNumbers, unsigned]
    split <;> rfl
  | .num .nan | .num (.infinity _) | .null | .bool _ | .str _ => rfl
  | .arr items => congrArg Json.arr (writtenItems_eq_finite items)
  | .obj fields => congrArg Json.obj (writtenFields_eq_finite fields)
theorem writtenItems_eq_finite :
    ∀ items : List Js.Value, Js.writtenItems items = Json.mapItems unsigned (finiteItems items)
  | [] => rfl
  | x :: xs => by
    rw [Js.writtenItems, written_eq_finite x, writtenItems_eq_finite xs, finiteItems, Json.mapItems]
theorem writtenFields_eq_finite : ∀ fields : List (JsString × Js.Value),
    Js.writtenFields fields = Json.mapFields unsigned (finiteFields fields)
  | [] => rfl
  | (k, v) :: es => by
    rw [Js.writtenFields, written_eq_finite v, writtenFields_eq_finite es, finiteFields,
      Json.mapFields]
end

theorem map_insertField (g : Js.Value → Js.Value) (f : JsString × Js.Value)
    (fields : List (JsString × Js.Value)) :
    (Json.insertField f fields).map (fun e => (e.1, g e.2)) =
      Json.insertField (f.1, g f.2) (fields.map fun e => (e.1, g e.2)) := by
  induction fields with
  | nil => rfl
  | cons e fields ih =>
    rw [Json.insertField, List.map_cons, Json.insertField]
    split
    · rfl
    · rw [List.map_cons, ih]

mutual
theorem written_sortKeys : ∀ v : Js.Value, Js.written (sortKeys v) = sortKeys (Js.written v)
  | .null | .bool _ | .str _ => rfl
  | .num .nan | .num (.infinity _) => rfl
  | .num (.finite negative bits) => by
    simp only [sortKeys, Js.written, Js.writtenNumber]
    split <;> simp only [sortKeys]
  | .arr items => congrArg Json.arr (written_sortItems items)
  | .obj fields => congrArg Json.obj (written_sortFields fields)
theorem written_sortItems : ∀ items : List Js.Value,
    Js.writtenItems (Json.sortItems items) = Json.sortItems (Js.writtenItems items)
  | [] => rfl
  | x :: xs => by
    rw [Json.sortItems, Js.writtenItems, written_sortKeys x, written_sortItems xs, Js.writtenItems,
      Json.sortItems]
theorem written_sortFields : ∀ fields : List (JsString × Js.Value),
    Js.writtenFields (Json.sortFields fields) = Json.sortFields (Js.writtenFields fields)
  | [] => rfl
  | (k, v) :: es => by
    rw [Json.sortFields, Js.writtenFields, Json.sortFields, ← written_sortFields es,
      Js.writtenFields_eq, Js.writtenFields_eq, map_insertField, written_sortKeys v]
end

/-- Texts are equal where what they are read back as is. -/
theorem canonicalJSON_eq_iff (v w : Js.Value) :
    canonicalJSON v = canonicalJSON w ↔ sortKeys (Js.written v) = sortKeys (Js.written w) := by
  rw [← written_sortKeys, ← written_sortKeys]
  constructor
  · intro same
    have read := Js.parse_print (sortKeys v)
    rw [← canonicalJSON, same, canonicalJSON, Js.parse_print] at read
    exact (Option.some.inj read).symm
  · intro same
    rw [canonicalJSON, canonicalJSON, ← Js.print_written, same, Js.print_written]

theorem nodup_of_ordered {v : Js.Value} (ordered : Json.Keys Js.Ordered v) :
    Json.Keys List.Nodup v :=
  ordered.imp (fun _ keys => keys.imp fun apart => apart.1) v

theorem Parsed.ordered {v : Js.Value} (h : Parsed v) : Json.Keys Js.Ordered v := by
  obtain ⟨text, parsed⟩ := h
  obtain ⟨u, -, rfl⟩ := Option.map_eq_some_iff.mp parsed
  exact Js.ordered_objects u

theorem nodup_written {v : Js.Value} (ordered : Json.Keys Js.Ordered v) :
    Json.Keys List.Nodup (Js.written v) := nodup_of_ordered (Js.ordered_written v ordered)

mutual
/-- Properties in their order, with keys that are different already. -/
theorem sortKeys_objects : ∀ v : Js.Value, Json.Keys List.Nodup v →
    sortKeys (Js.objects v) = sortKeys v
  | .null, _ | .bool _, _ | .num _, _ | .str _, _ => rfl
  | .arr items, h => congrArg Json.arr (sortItems_objects items h)
  | .obj fields, h => by
    have keys : (Js.objectsFields fields).map Prod.fst = fields.map Prod.fst := by
      rw [Js.objectsFields_eq, List.map_map]
      rfl
    have made {f : JsString × Js.Value} : f ∈ Js.assignAll (Js.objectsFields fields) ↔
        f ∈ fields.map fun e => (e.1, Js.objects e.2) := by
      rw [Js.mem_assignAll_iff (by rw [keys]; exact h.1), Js.objectsFields_eq]
    have placed := Js.ordered_assignAll (Js.objectsFields fields)
    rw [Js.objects, sortKeys, sortKeys]
    congr 1
    exact Json.sortFields_eq_of_mem h.1 (placed.imp fun apart => apart.1) (fun _ => made)
      (sortFields_objects fields h.2)
theorem sortItems_objects : ∀ items : List Js.Value, Json.KeysItems List.Nodup items →
    Json.sortItems (Js.objectsItems items) = Json.sortItems items
  | [], _ => rfl
  | x :: xs, h => by
    rw [Js.objectsItems, Json.sortItems, sortKeys_objects x h.1, sortItems_objects xs h.2,
      Json.sortItems]
theorem sortFields_objects : ∀ fields : List (JsString × Js.Value),
    Json.KeysFields List.Nodup fields → ∀ e ∈ fields, sortKeys (Js.objects e.2) = sortKeys e.2
  | [], _ => List.forall_mem_nil _
  | (_, v) :: es, h =>
    List.forall_mem_cons.mpr ⟨sortKeys_objects v h.1, sortFields_objects es h.2⟩
end

theorem unsigned_of_plain (x : Double) (plain : Js.Plain x) : unsigned x = x := by
  obtain ⟨negative, bits, rfl, sign⟩ := plain
  rw [unsigned]
  split
  · rename_i zero
    rw [sign zero]
  · rfl

mutual
theorem numbers_objects {P : Double → Prop} : ∀ v : Js.Value, v.Numbers P →
    (Js.objects v).Numbers P
  | .null, _ | .bool _, _ | .str _, _ => trivial
  | .num _, h => h
  | .arr items, h => numbers_objectsItems items h
  | .obj fields, h => by
    rw [Js.objects]
    refine Json.numbersFields_iff.mpr fun f mem => ?_
    exact Json.numbersFields_iff.mp (numbers_objectsFields fields h) f (Js.mem_assignAll mem)
theorem numbers_objectsItems {P : Double → Prop} : ∀ items : List Js.Value,
    Json.NumbersItems P items → Json.NumbersItems P (Js.objectsItems items)
  | [], _ => trivial
  | x :: xs, h => ⟨numbers_objects x h.1, numbers_objectsItems xs h.2⟩
theorem numbers_objectsFields {P : Double → Prop} : ∀ fields : List (JsString × Js.Value),
    Json.NumbersFields P fields → Json.NumbersFields P (Js.objectsFields fields)
  | [], _ => trivial
  | (_, v) :: es, h => ⟨numbers_objects v h.1, numbers_objectsFields es h.2⟩
end

/-- Canonical JSON tells values from each other up to the order of keys, as far
as numbers are finite: one that is not is written as `null`. What the text is
read back as is the value again, so taken. -/
theorem canonical_up_to_infinity {v w : Js.Value} (hv : Parsed v) (hw : Parsed w) :
    (canonicalJSON v = canonicalJSON w ↔ Alike SameNumber (finite v) (finite w)) ∧
      ∃ v', Js.parseJson (canonicalJSON v) = some v' ∧ Alike SameNumber v' (finite v) := by
  have nodup := nodup_written hv.ordered
  have nodup' := nodup_written hw.ordered
  constructor
  · rw [canonicalJSON_eq_iff, ← Json.alike_iff _ _ nodup nodup', written_eq_finite,
      written_eq_finite, Json.alike_mapNumbers]
    rfl
  · have parsed : Js.parseJson (canonicalJSON v) = some (Js.objects (Js.written (sortKeys v))) := by
      rw [Js.parseJson, canonicalJSON, Js.parse_print]
      rfl
    refine ⟨_, parsed, ?_⟩
    have plain := numbers_objects _ (Js.numbers_written (sortKeys v))
    have placed : Json.Keys List.Nodup (Js.objects (Js.written (sortKeys v))) :=
      nodup_of_ordered (Js.ordered_objects _)
    have whole : mapNumbers unsigned (Js.objects (Js.written (sortKeys v))) =
        Js.objects (Js.written (sortKeys v)) := Json.mapNumbers_eq_self unsigned_of_plain _ plain
    have alike : Alike (fun x y => unsigned x = unsigned y) (Js.objects (Js.written (sortKeys v)))
        (finite v) := by
      rw [← Json.alike_mapNumbers, whole, ← written_eq_finite, Json.alike_iff _ _ placed nodup,
        written_sortKeys, sortKeys_objects _ (Json.nodup_sortKeys _ nodup),
        Json.sortKeys_sortKeys _ nodup]
    exact alike

theorem parsed_of_ordered {v : Js.Value} (ordered : Json.Keys Js.Ordered v)
    (plain : v.Numbers Js.Plain) : Parsed v :=
  ⟨_, (Js.parseJson_print ordered).trans (congrArg some (Js.written_eq_self v plain))⟩

theorem canonical_in_any_order :
    canonicalJSON (.obj [(js "a", .null), (js "b", .bool true)]) =
      canonicalJSON (.obj [(js "b", .bool true), (js "a", .null)]) := by
  have first : Parsed (.obj [(js "a", .null), (js "b", .bool true)]) :=
    parsed_of_ordered ⟨by decide, trivial, trivial, trivial⟩ ⟨trivial, trivial, trivial⟩
  have second : Parsed (.obj [(js "b", .bool true), (js "a", .null)]) :=
    parsed_of_ordered ⟨by decide, trivial, trivial, trivial⟩ ⟨trivial, trivial, trivial⟩
  refine (canonical_up_to_infinity first second).1.mpr ?_
  exact ⟨rfl, ⟨_, List.mem_cons_of_mem _ List.mem_cons_self, trivial⟩,
    ⟨_, List.mem_cons_self, rfl⟩, trivial⟩

theorem parseJson_infinity : Js.parseJson (js "1e400") = some (.num (.infinity false)) := by
  have number : Js.readNumber (0x31 :: js "e400") = some (.infinity false, []) := by decide +kernel
  have solid : Js.strip (.outside false false) (js "1e400") = some (0x31 :: js "e400") := by decide
  have read : Json.read Js.format 5 (0x31 :: js "e400") = some (.num (.infinity false), []) := by
    rw [Json.read, if_neg (by decide), if_neg (by decide), if_neg (by decide), if_neg (by decide),
      if_neg (by decide), if_neg (by decide)]
    exact congrArg (Option.map _) number
  have length : (0x31 :: js "e400").length = 5 := rfl
  rw [Js.parseJson, Js.parse, solid, Option.bind_some, Json.parse, length, read]
  rfl

/-- The text of a number too large for a double is the text of `null`. -/
theorem infinity_written_as_null : ¬ ∀ v w : Js.Value, Parsed v → Parsed w →
    (canonicalJSON v = canonicalJSON w ↔ Alike SameNumber v w) ∧
      ∃ v', Js.parseJson (canonicalJSON v) = some v' ∧ Alike SameNumber v' v := by
  intro canonical
  have nothing : Parsed .null := parsed_of_ordered trivial trivial
  exact (canonical (.num (.infinity false)) .null ⟨_, parseJson_infinity⟩ nothing).1.mp rfl

end Qev.Cli
