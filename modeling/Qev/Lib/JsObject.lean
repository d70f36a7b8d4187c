import Qev.Lib.JsonText

/-! Objects of ECMAScript: the order of their own properties, assignment to one,
and the objects that `JSON.parse` makes. -/

namespace Qev.Js

def isDigit (u : UInt16) : Bool := 48 ≤ u.toNat && u.toNat < 58

/-- The number that a key stands for where it is an array index. -/
def arrayIndex (key : JsString) : Option Nat :=
  let n := key.foldl (fun n u => n * 10 + (u.toNat - 48)) 0
  if key ≠ [] ∧ key.all isDigit ∧ (key.head? ≠ some (ascii '0') ∨ key.length = 1) ∧
      n < 2 ^ 32 - 1 then
    some n
  else none

/-- Array indices come first, by their number; the other keys keep the order in
which they were made. -/
def place (key : JsString) : Nat := (arrayIndex key).getD (2 ^ 32 - 1)

/-- One property for each key, in the order of properties. -/
def Ordered (keys : List JsString) : Prop := keys.Pairwise fun k l => k ≠ l ∧ place k ≤ place l

instance (keys : List JsString) : Decidable (Ordered keys) :=
  inferInstanceAs (Decidable (keys.Pairwise _))

section Fields

variable {α : Type} {key : JsString} {value : α} {fields : List (JsString × α)}

/-- `object[key] = value` on an own property. -/
def assign (key : JsString) (value : α) : List (JsString × α) → List (JsString × α)
  | [] => [(key, value)]
  | (k, v) :: fields =>
    if k = key then (key, value) :: fields
    else if place key < place k then (key, value) :: (k, v) :: fields
    else (k, v) :: assign key value fields

/-- The object that assignments one after the other make. -/
def assignAll (fields : List (JsString × α)) : List (JsString × α) :=
  fields.foldl (fun object f => assign f.1 f.2 object) []

theorem mem_assign {f : JsString × α} (h : f ∈ assign key value fields) :
    f = (key, value) ∨ f ∈ fields := by
  induction fields with
  | nil => exact .inl (List.mem_singleton.mp h)
  | cons g fields ih =>
    rw [assign] at h
    split_ifs at h
    · rcases List.mem_cons.mp h with here | later
      · exact .inl here
      · exact .inr (List.mem_cons_of_mem _ later)
    · exact List.mem_cons.mp h
    · rcases List.mem_cons.mp h with here | later
      · exact .inr (here ▸ List.mem_cons_self)
      · exact (ih later).imp_right (List.mem_cons_of_mem _)

theorem ordered_assign (ordered : Ordered (fields.map Prod.fst)) :
    Ordered ((assign key value fields).map Prod.fst) := by
  induction fields with
  | nil => exact List.pairwise_singleton _ _
  | cons g fields ih =>
    obtain ⟨k, v⟩ := g
    obtain ⟨first, later⟩ := List.pairwise_cons.mp ordered
    rw [assign]
    split_ifs with same before
    · rw [List.map_cons, ← same]
      exact List.pairwise_cons.mpr ⟨first, later⟩
    · refine List.pairwise_cons.mpr ⟨fun l mem => ?_, ordered⟩
      rcases List.mem_cons.mp mem with rfl | mem
      · exact ⟨Ne.symm same, before.le⟩
      · have after : place k ≤ place l := (first l mem).2
        refine ⟨?_, (before.trans_le after).le⟩
        rintro rfl
        exact absurd before (Nat.not_lt.mpr after)
    · refine List.pairwise_cons.mpr ⟨fun l mem => ?_, ih later⟩
      obtain ⟨f, inside, rfl⟩ := List.mem_map.mp mem
      rcases mem_assign inside with rfl | other
      · exact ⟨same, Nat.not_lt.mp before⟩
      · exact first f.1 (List.mem_map_of_mem other)

/-- A key that comes after all others gets a new property at the end. -/
theorem assign_last (last : ∀ k ∈ fields.map Prod.fst, k ≠ key ∧ place k ≤ place key) :
    assign key value fields = fields ++ [(key, value)] := by
  induction fields with
  | nil => rfl
  | cons g fields ih =>
    obtain ⟨other, before⟩ := last g.1 List.mem_cons_self
    rw [assign, if_neg other, if_neg (Nat.not_lt.mpr before), List.cons_append,
      ih fun k mem => last k (List.mem_cons_of_mem _ mem)]

theorem assignAll_append (fields : List (JsString × α)) (f : JsString × α) :
    assignAll (fields ++ [f]) = assign f.1 f.2 (assignAll fields) := by
  rw [assignAll, List.foldl_append]
  rfl

theorem ordered_assignAll (fields : List (JsString × α)) :
    Ordered ((assignAll fields).map Prod.fst) := by
  induction fields using List.reverseRecOn with
  | nil => exact List.Pairwise.nil
  | append_singleton fields f ih =>
    rw [assignAll_append]
    exact ordered_assign ih

theorem mem_assignAll {f : JsString × α} (h : f ∈ assignAll fields) : f ∈ fields := by
  induction fields using List.reverseRecOn with
  | nil => exact h
  | append_singleton fields g ih =>
    rw [assignAll_append] at h
    rcases mem_assign h with rfl | earlier
    · exact List.mem_append_right _ (List.mem_singleton_self _)
    · exact List.mem_append_left _ (ih earlier)

/-- Properties in order are made one after the other. -/
theorem assignAll_ordered (ordered : Ordered (fields.map Prod.fst)) :
    assignAll fields = fields := by
  induction fields using List.reverseRecOn with
  | nil => rfl
  | append_singleton fields f ih =>
    rw [List.map_append, Ordered, List.pairwise_append] at ordered
    obtain ⟨earlier, -, last⟩ := ordered
    rw [assignAll_append, ih earlier]
    exact assign_last fun k mem => last k mem f.1 (List.mem_singleton_self _)

end Fields

/-! ## JSON.parse -/

mutual
/-- The value with the objects that the fields of its text make. -/
def objects : Value → Value
  | .arr items => .arr (objectsItems items)
  | .obj fields => .obj (assignAll (objectsFields fields))
  | v => v
def objectsItems : List Value → List Value
  | [] => []
  | x :: xs => objects x :: objectsItems xs
def objectsFields : List (JsString × Value) → List (JsString × Value)
  | [] => []
  | (k, v) :: es => (k, objects v) :: objectsFields es
end

/-- `JSON.parse`: of fields with one key the last one counts. -/
def parseJson (text : JsString) : Option Value := (parse text).map objects

theorem objectsFields_eq (fields : List (JsString × Value)) :
    objectsFields fields = fields.map fun f => (f.1, objects f.2) := by
  induction fields with
  | nil => rfl
  | cons f fields ih => rw [objectsFields, ih, List.map_cons]

mutual
theorem objects_eq_self : ∀ v : Value, Json.Keys Ordered v → objects v = v
  | .null, _ | .bool _, _ | .num _, _ | .str _, _ => rfl
  | .arr items, h => congrArg Json.arr (objectsItems_eq_self items h)
  | .obj fields, h => by
    rw [objects, objectsFields_eq_self fields h.2, assignAll_ordered h.1]
theorem objectsItems_eq_self :
    ∀ items : List Value, Json.KeysItems Ordered items → objectsItems items = items
  | [], _ => rfl
  | x :: xs, h => by rw [objectsItems, objects_eq_self x h.1, objectsItems_eq_self xs h.2]
theorem objectsFields_eq_self : ∀ fields : List (JsString × Value),
    Json.KeysFields Ordered fields → objectsFields fields = fields
  | [], _ => rfl
  | (k, v) :: es, h => by rw [objectsFields, objects_eq_self v h.1, objectsFields_eq_self es h.2]
end

mutual
/-- What `JSON.parse` makes are objects. -/
theorem ordered_objects : ∀ v : Value, Json.Keys Ordered (objects v)
  | .null | .bool _ | .num _ | .str _ => trivial
  | .arr items => ordered_objectsItems items
  | .obj fields => by
    refine ⟨ordered_assignAll _, Json.keysFields_iff.mpr fun f mem => ?_⟩
    exact Json.keysFields_iff.mp (ordered_objectsFields fields) f (mem_assignAll mem)
theorem ordered_objectsItems : ∀ items : List Value, Json.KeysItems Ordered (objectsItems items)
  | [] => trivial
  | x :: xs => ⟨ordered_objects x, ordered_objectsItems xs⟩
theorem ordered_objectsFields :
    ∀ fields : List (JsString × Value), Json.KeysFields Ordered (objectsFields fields)
  | [] => trivial
  | (_, v) :: es => ⟨ordered_objects v, ordered_objectsFields es⟩
end

/-! ## Text that is read back -/

/-- What the text of a number is read back as. -/
def writtenNumber : Double → Value
  | .finite negative bits =>
    if bits.val = 0 then .num (.finite false bits) else .num (.finite negative bits)
  | _ => .null

mutual
/-- What the text of a value is read back as. -/
def written : Value → Value
  | .num x => writtenNumber x
  | .arr items => .arr (writtenItems items)
  | .obj fields => .obj (writtenFields fields)
  | v => v
def writtenItems : List Value → List Value
  | [] => []
  | x :: xs => written x :: writtenItems xs
def writtenFields : List (JsString × Value) → List (JsString × Value)
  | [] => []
  | (k, v) :: es => (k, written v) :: writtenFields es
end

theorem writtenFields_eq (fields : List (JsString × Value)) :
    writtenFields fields = fields.map fun f => (f.1, written f.2) := by
  induction fields with
  | nil => rfl
  | cons f fields ih => rw [writtenFields, ih, List.map_cons]

theorem print_writtenNumber (x : Double) :
    Json.print printer (writtenNumber x) = Json.print printer (.num x) := by
  cases x with
  | nan | infinity => rfl
  | finite negative bits =>
    rw [writtenNumber]
    split
    · rename_i zero
      simp [Json.print, printer, number, Double.toString, zero]
    · rfl

mutual
theorem print_written : ∀ v : Value, Json.print printer (written v) = Json.print printer v
  | .null | .bool _ | .str _ => rfl
  | .num x => print_writtenNumber x
  | .arr items => by rw [written, Json.print, Json.print, print_writtenItems items]
  | .obj fields => by rw [written, Json.print, Json.print, print_writtenFields fields]
theorem print_writtenItems :
    ∀ items : List Value, Json.printItems printer (writtenItems items) =
      Json.printItems printer items
  | [] => rfl
  | [x] => print_written x
  | x :: y :: xs => by
    have later := print_writtenItems (y :: xs)
    simp only [writtenItems] at later ⊢
    rw [Json.printItems, Json.printItems, later, print_written x]
theorem print_writtenFields : ∀ fields : List (JsString × Value),
    Json.printFields printer (writtenFields fields) = Json.printFields printer fields
  | [] => rfl
  | [(k, v)] => by
    simp only [writtenFields, Json.printFields]
    rw [print_written v]
  | (k, v) :: e :: es => by
    have later := print_writtenFields (e :: es)
    obtain ⟨k', v'⟩ := e
    simp only [writtenFields] at later ⊢
    rw [Json.printFields, Json.printFields, later, print_written v]
end

mutual
theorem numbers_written : ∀ v : Value, Json.Numbers Plain (written v)
  | .null | .bool _ | .str _ => trivial
  | .num .nan | .num (.infinity _) => trivial
  | .num (.finite negative bits) => by
    rw [written, writtenNumber]
    split
    · exact ⟨false, bits, rfl, fun _ => rfl⟩
    · rename_i nonzero
      exact ⟨negative, bits, rfl, fun zero => absurd zero nonzero⟩
  | .arr items => numbers_writtenItems items
  | .obj fields => numbers_writtenFields fields
theorem numbers_writtenItems :
    ∀ items : List Value, Json.NumbersItems Plain (writtenItems items)
  | [] => trivial
  | x :: xs => ⟨numbers_written x, numbers_writtenItems xs⟩
theorem numbers_writtenFields :
    ∀ fields : List (JsString × Value), Json.NumbersFields Plain (writtenFields fields)
  | [] => trivial
  | (_, v) :: es => ⟨numbers_written v, numbers_writtenFields es⟩
end

theorem writtenNumber_plain {x : Double} (plain : Plain x) : writtenNumber x = .num x := by
  obtain ⟨negative, bits, rfl, sign⟩ := plain
  rw [writtenNumber]
  split
  · rename_i zero
    rw [sign zero]
  · rfl

mutual
theorem written_eq_self : ∀ v : Value, Json.Numbers Plain v → written v = v
  | .null, _ | .bool _, _ | .str _, _ => rfl
  | .num _, h => writtenNumber_plain h
  | .arr items, h => congrArg Json.arr (writtenItems_eq_self items h)
  | .obj fields, h => congrArg Json.obj (writtenFields_eq_self fields h)
theorem writtenItems_eq_self :
    ∀ items : List Value, Json.NumbersItems Plain items → writtenItems items = items
  | [], _ => rfl
  | x :: xs, h => by rw [writtenItems, written_eq_self x h.1, writtenItems_eq_self xs h.2]
theorem writtenFields_eq_self : ∀ fields : List (JsString × Value),
    Json.NumbersFields Plain fields → writtenFields fields = fields
  | [], _ => rfl
  | (k, v) :: es, h => by rw [writtenFields, written_eq_self v h.1, writtenFields_eq_self es h.2]
end

mutual
theorem ordered_written : ∀ v : Value, Json.Keys Ordered v → Json.Keys Ordered (written v)
  | .null, _ | .bool _, _ | .str _, _ => trivial
  | .num .nan, _ | .num (.infinity _), _ => trivial
  | .num (.finite _ _), _ => by
    rw [written, writtenNumber]
    split <;> trivial
  | .arr items, h => ordered_writtenItems items h
  | .obj fields, h => by
    refine ⟨?_, ordered_writtenFields fields h.2⟩
    rw [writtenFields_eq, List.map_map]
    exact h.1
theorem ordered_writtenItems : ∀ items : List Value,
    Json.KeysItems Ordered items → Json.KeysItems Ordered (writtenItems items)
  | [], _ => trivial
  | x :: xs, h => ⟨ordered_written x h.1, ordered_writtenItems xs h.2⟩
theorem ordered_writtenFields : ∀ fields : List (JsString × Value),
    Json.KeysFields Ordered fields → Json.KeysFields Ordered (writtenFields fields)
  | [], _ => trivial
  | (_, v) :: es, h => ⟨ordered_written v h.1, ordered_writtenFields es h.2⟩
end

/-- The place without white space before it. -/
def Place.solid : Place → Place
  | .outside word _ => .outside word false
  | place => place

/-- Text whose white space is stripped has none. -/
theorem strip_stripped {place : Place} {text rest : JsString} (h : strip place text = some rest) :
    strip place.solid rest = some rest := by
  induction text generalizing place rest with
  | nil =>
    cases h
    cases place <;> rfl
  | cons u text ih =>
    cases place with
    | outside word gap =>
      change strip (.outside word false) rest = some rest
      rw [strip] at h
      split_ifs at h with space punctuation divided quotation
      · have solid : strip (.outside word false) rest = some rest := ih h
        exact solid
      · obtain ⟨later, stripped, rfl⟩ := Option.map_eq_some_iff.mp h
        have solid : strip (.outside false false) later = some later := ih stripped
        rw [strip, if_neg space, if_pos punctuation, solid]
        rfl
      · obtain ⟨later, stripped, rfl⟩ := Option.map_eq_some_iff.mp h
        have solid : strip .inside later = some later := ih stripped
        rw [strip, if_neg space, if_neg punctuation, Bool.and_false, if_neg Bool.false_ne_true,
          if_pos quotation, solid]
        rfl
      · obtain ⟨later, stripped, rfl⟩ := Option.map_eq_some_iff.mp h
        have solid : strip (.outside true false) later = some later := ih stripped
        rw [strip, if_neg space, if_neg punctuation, Bool.and_false, if_neg Bool.false_ne_true,
          if_neg quotation, solid]
        rfl
    | inside =>
      change strip .inside rest = some rest
      rw [strip] at h
      split_ifs at h with close escape
      · obtain ⟨later, stripped, rfl⟩ := Option.map_eq_some_iff.mp h
        have solid : strip (.outside true false) later = some later := ih stripped
        rw [strip, if_pos close, solid]
        rfl
      · obtain ⟨later, stripped, rfl⟩ := Option.map_eq_some_iff.mp h
        have solid : strip .escaped later = some later := ih stripped
        rw [strip, if_neg close, if_pos escape, solid]
        rfl
      · obtain ⟨later, stripped, rfl⟩ := Option.map_eq_some_iff.mp h
        have solid : strip .inside later = some later := ih stripped
        rw [strip, if_neg close, if_neg escape, solid]
        rfl
    | escaped =>
      change strip .escaped rest = some rest
      rw [strip] at h
      obtain ⟨later, stripped, rfl⟩ := Option.map_eq_some_iff.mp h
      have solid : strip .inside later = some later := ih stripped
      rw [strip, solid]
      rfl

/-- Compact text is read back. -/
theorem parse_print (v : Value) : parse (Json.print printer v) = some (written v) := by
  have indented := strip_stringify v (List.forall_mem_nil _)
  have solid : strip (.outside false false) (Json.print printer v) = some (Json.print printer v) :=
    strip_stripped indented
  rw [parse, solid, Option.bind_some, ← print_written]
  exact Json.parse_print format (numbers_written v)

/-- So is indented text, with white space after it. -/
theorem parse_indented (v : Value) {space : JsString} (trailing : ∀ u ∈ space, isSpace u = true) :
    parse (stringify v ++ space) = some (written v) := by
  rw [parse, strip_stringify v trailing, Option.bind_some, ← print_written]
  exact Json.parse_print format (numbers_written v)

section Read

variable {v : Value} (ordered : Json.Keys Ordered v)

include ordered

theorem parseJson_print : parseJson (Json.print printer v) = some (written v) := by
  rw [parseJson, parse_print, Option.map_some, objects_eq_self _ (ordered_written v ordered)]

theorem parseJson_stringify {space : JsString} (trailing : ∀ u ∈ space, isSpace u = true) :
    parseJson (stringify v ++ space) = some (written v) := by
  rw [parseJson, parse_indented v trailing, Option.map_some,
    objects_eq_self _ (ordered_written v ordered)]

end Read

end Qev.Js
