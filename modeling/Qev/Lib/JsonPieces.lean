import Qev.Lib.JsonText

/-! What holds of every piece of indented JSON text holds of the text. -/

namespace Qev.Js

/-! ## Units of a string and a number -/

section Units

variable {Q : UInt16 → Prop}

/-- The units of what `JSON.stringify` writes for a unit. -/
structure Escapes (Q : UInt16 → Prop) : Prop where
  letter : ∀ u, u = 0x22 ∨ u = 0x5C ∨ u = 0x62 ∨ u = 0x66 ∨ u = 0x6E ∨ u = 0x72 ∨ u = 0x74 ∨
    u = 0x75 → Q u
  digit : ∀ n < 16, Q (hexDigit n)

theorem Escapes.quoteUnit (h : Escapes Q) {u : UInt16} (own : Q u) : ∀ w ∈ quoteUnit u, Q w := by
  have pair {a b : UInt16} (ha : Q a) (hb : Q b) : ∀ w ∈ [a, b], Q w :=
    List.forall_mem_cons.mpr ⟨ha, List.forall_mem_singleton.mpr hb⟩
  have backslash : Q 0x5C := h.letter _ (by decide)
  have small := u.toNat_lt
  rw [Js.quoteUnit]
  split_ifs
  · exact pair backslash (h.letter _ (by decide))
  · exact pair backslash backslash
  · exact pair backslash (h.letter _ (by decide))
  · exact pair backslash (h.letter _ (by decide))
  · exact pair backslash (h.letter _ (by decide))
  · exact pair backslash (h.letter _ (by decide))
  · exact pair backslash (h.letter _ (by decide))
  · simp only [unicodeEscape, List.forall_mem_cons]
    exact ⟨backslash, h.letter _ (by decide), h.digit _ (by omega), h.digit _ (by omega),
      h.digit _ (by omega), h.digit _ (by omega), List.forall_mem_nil _⟩
  · exact List.forall_mem_singleton.mpr own

theorem Escapes.quote (h : Escapes Q) {s : JsString} (own : ∀ u ∈ s, Q u) : ∀ w ∈ quote s, Q w := by
  have units : ∀ w ∈ quoteUnits s, Q w := by
    fun_induction quoteUnits s with
    | case1 a b rest pair ih =>
      simp only [List.forall_mem_cons] at own ⊢
      exact ⟨own.1, own.2.1, ih own.2.2⟩
    | case2 a b rest single ih =>
      rw [List.forall_mem_cons] at own
      exact List.forall_mem_append.mpr ⟨h.quoteUnit own.1, ih own.2⟩
    | case3 a => exact h.quoteUnit (own a List.mem_cons_self)
    | case4 => exact List.forall_mem_nil _
  have mark : Q 0x22 := h.letter _ (by decide)
  rw [Js.quote]
  exact List.forall_mem_append.mpr
    ⟨List.forall_mem_cons.mpr ⟨mark, units⟩, List.forall_mem_singleton.mpr mark⟩

theorem forall_mem_number (numeral : ∀ c, Double.isNumeral c = true → Q (ascii c))
    (word : ∀ u ∈ "null".toList.map ascii, Q u) (x : Double) : ∀ u ∈ number x, Q u := by
  cases x with
  | nan => exact word
  | infinity negative => exact word
  | finite negative bits =>
    intro u mem
    obtain ⟨c, here, rfl⟩ := List.mem_map.mp mem
    exact numeral c (isNumeral_toString c here)

end Units

/-! ## Pieces of an object -/

/-- A property of the pieces that indented objects are put together from. -/
structure Pieces (P : JsString → Prop) : Prop where
  nil : P []
  append : ∀ {a b}, P a → P b → P (a ++ b)
  newline : ∀ depth, P (newline depth)
  left : P [ascii '\x7b']
  right : P [ascii '\x7d']
  comma : P [ascii ',']
  colon : P [ascii ':', ascii ' ']

theorem Pieces.obj {P : JsString → Prop} (h : Pieces P) (depth : Nat)
    {fields : List (JsString × Value)}
    (each : ∀ f ∈ fields, P (quote f.1) ∧ P (pretty (depth + 1) f.2)) :
    P (pretty depth (.obj fields)) := by
  have inner : P (prettyFields (depth + 1) fields) := by
    induction fields with
    | nil => exact h.nil
    | cons f fields ih =>
      obtain ⟨k, v⟩ := f
      rw [List.forall_mem_cons] at each
      have field : P (Js.newline (depth + 1) ++ Js.quote k ++
          (ascii ':' :: ascii ' ' :: pretty (depth + 1) v)) :=
        h.append (h.append (h.newline _) each.1.1) (h.append h.colon each.1.2)
      cases fields with
      | nil => exact field
      | cons e es => exact h.append field (h.append h.comma (ih each.2))
  have closing : P (closing depth fields.isEmpty) := by
    cases fields with
    | nil => exact h.nil
    | cons f fields => exact h.newline depth
  exact h.append (h.append (h.append h.left inner) closing) h.right

end Qev.Js
