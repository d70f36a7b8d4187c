import Qev.Lib.Json

/-! JSON text determines its value where the text of strings and numbers does,
whether or not a parser reads it. -/

namespace Qev.Json

variable {σ ν χ : Type}

/-- What strings in `P` and numbers in `N` are written as can be told from what
follows and from each other. -/
structure Unambiguous (p : Printer σ ν χ) (P : σ → Prop) (N : ν → Prop) : Prop where
  ascii_inj : ∀ a b : Char, a.toNat < 128 → b.toNat < 128 → p.ascii a = p.ascii b → a = b
  quote_head : ∀ s, ∃ tail, p.quote s = p.ascii '"' :: tail
  quote_free : ∀ s s' r r', P s → P s' → p.quote s ++ r = p.quote s' ++ r' → s = s'
  number_head : ∀ n, N n → ∃ c tail, p.number n = p.ascii c :: tail ∧ c.toNat < 128 ∧
    c ∉ ['n', 't', 'f', '"', '[', '\x7b', ',', ']', '\x7d']
  number_free : ∀ n n' r r', N n → N n' → Ends p.ascii r → Ends p.ascii r' →
    p.number n ++ r = p.number n' ++ r' → n = n'

mutual
/-- Strings and keys are in `P`, numbers in `N`. -/
def Within (P : σ → Prop) (N : ν → Prop) : Json σ ν → Prop
  | num n => N n
  | str s => P s
  | arr items => WithinItems P N items
  | obj fields => WithinFields P N fields
  | null | bool _ => True
def WithinItems (P : σ → Prop) (N : ν → Prop) : List (Json σ ν) → Prop
  | [] => True
  | x :: xs => Within P N x ∧ WithinItems P N xs
def WithinFields (P : σ → Prop) (N : ν → Prop) : List (σ × Json σ ν) → Prop
  | [] => True
  | (k, v) :: es => P k ∧ Within P N v ∧ WithinFields P N es
end

theorem withinFields_iff {P : σ → Prop} {N : ν → Prop} {fields : List (σ × Json σ ν)} :
    WithinFields P N fields ↔ ∀ f ∈ fields, P f.1 ∧ Within P N f.2 := by
  induction fields with
  | nil => simp [WithinFields]
  | cons f fields ih => simp [WithinFields, ih, and_assoc]

section Order

variable [LT σ] [DecidableLT σ]

mutual
theorem Within.sortKeys {P : σ → Prop} {N : ν → Prop} : ∀ v : Json σ ν, Within P N v →
    Within P N v.sortKeys
  | null, _ | bool _, _ => trivial
  | num _, h | str _, h => h
  | arr items, h => WithinItems.sortItems items h
  | obj fields, h => WithinFields.sortFields fields h
theorem WithinItems.sortItems {P : σ → Prop} {N : ν → Prop} : ∀ items : List (Json σ ν),
    WithinItems P N items → WithinItems P N (sortItems items)
  | [], _ => trivial
  | x :: xs, h => ⟨Within.sortKeys x h.1, WithinItems.sortItems xs h.2⟩
theorem WithinFields.sortFields {P : σ → Prop} {N : ν → Prop} : ∀ fields : List (σ × Json σ ν),
    WithinFields P N fields → WithinFields P N (sortFields fields)
  | [], _ => trivial
  | (k, v) :: es, h => by
    rw [Json.sortFields, withinFields_iff]
    intro f mem
    rcases mem_insertField.mp mem with rfl | later
    · exact ⟨h.1, Within.sortKeys v h.2.1⟩
    · exact withinFields_iff.mp (WithinFields.sortFields es h.2.2) f later
end

end Order

/-- The character that a value other than a number starts with. -/
def initial : Json σ ν → Option Char
  | null => some 'n'
  | bool b => some (if b then 't' else 'f')
  | num _ => none
  | str _ => some '"'
  | arr _ => some '['
  | obj _ => some '\x7b'

section Shape

variable {w : Json σ ν}

theorem of_initial_null (h : initial w = some 'n') : w = null := by
  cases w with
  | null => rfl
  | bool b => cases b <;> cases h
  | num _ | str _ | arr _ | obj _ => cases h

theorem of_initial_bool {b : Bool} (h : initial w = some (if b then 't' else 'f')) :
    w = bool b := by
  cases w with
  | bool b' =>
    cases b with
    | true => cases b' <;> first | rfl | cases h
    | false => cases b' <;> first | rfl | cases h
  | null | num _ | str _ | arr _ | obj _ => cases b <;> cases h

theorem of_initial_num (h : initial w = none) : ∃ n, w = num n := by
  cases w with
  | num n => exact ⟨n, rfl⟩
  | null | bool _ | str _ | arr _ | obj _ => cases h

theorem of_initial_str (h : initial w = some '"') : ∃ s, w = str s := by
  cases w with
  | str s => exact ⟨s, rfl⟩
  | bool b => cases b <;> cases h
  | null | num _ | arr _ | obj _ => cases h

theorem of_initial_arr (h : initial w = some '[') : ∃ items, w = arr items := by
  cases w with
  | arr items => exact ⟨items, rfl⟩
  | bool b => cases b <;> cases h
  | null | num _ | str _ | obj _ => cases h

theorem of_initial_obj (h : initial w = some '\x7b') : ∃ fields, w = obj fields := by
  cases w with
  | obj fields => exact ⟨fields, rfl⟩
  | bool b => cases b <;> cases h
  | null | num _ | str _ | arr _ => cases h

end Shape

namespace Unambiguous

variable {p : Printer σ ν χ} {P : σ → Prop} {N : ν → Prop}

/-- A value starts with its initial character, or with none that another has. -/
theorem print_head (h : Unambiguous p P N) {v : Json σ ν} (ok : Within P N v) :
    ∃ c tail, print p v = p.ascii c :: tail ∧ c.toNat < 128 ∧ c ∉ [',', ']', '\x7d'] ∧
      (initial v = some c ∨ initial v = none ∧ c ∉ ['n', 't', 'f', '"', '[', '\x7b']) := by
  cases v with
  | null => exact ⟨'n', _, rfl, by decide, by decide, .inl rfl⟩
  | bool b =>
    cases b with
    | true => exact ⟨'t', _, rfl, by decide, by decide, .inl rfl⟩
    | false => exact ⟨'f', _, rfl, by decide, by decide, .inl rfl⟩
  | num n =>
    obtain ⟨c, tail, head, small, other⟩ := h.number_head n ok
    refine ⟨c, tail, head, small, fun mem => other ?_, .inr ⟨rfl, fun mem => other ?_⟩⟩
    · exact List.mem_append_right ['n', 't', 'f', '"', '[', '\x7b'] mem
    · exact List.mem_append_left [',', ']', '\x7d'] mem
  | str s =>
    obtain ⟨tail, head⟩ := h.quote_head s
    exact ⟨'"', tail, head, by decide, by decide, .inl rfl⟩
  | arr items => exact ⟨'[', _, rfl, by decide, by decide, .inl rfl⟩
  | obj fields => exact ⟨'\x7b', _, rfl, by decide, by decide, .inl rfl⟩

theorem initial_mem (v : Json σ ν) {c : Char} (first : initial v = some c) :
    c ∈ ['n', 't', 'f', '"', '[', '\x7b'] := by
  cases v with
  | bool b =>
    cases b with
    | true =>
      cases first
      decide
    | false =>
      cases first
      decide
  | num n => cases first
  | null | str _ | arr _ | obj _ =>
    cases first
    decide

theorem initial_eq (h : Unambiguous p P N) {v w : Json σ ν} (hv : Within P N v) (hw : Within P N w)
    {r r' : List χ} (same : print p v ++ r = print p w ++ r') : initial v = initial w := by
  obtain ⟨c, tail, head, small, -, first⟩ := h.print_head hv
  obtain ⟨c', tail', head', small', -, first'⟩ := h.print_head hw
  rw [head, head', List.cons_append, List.cons_append, List.cons.injEq] at same
  obtain rfl := h.ascii_inj c c' small small' same.1
  rcases first with first | ⟨first, other⟩
  · rcases first' with first' | ⟨-, other'⟩
    · rw [first, first']
    · exact absurd (initial_mem v first) other'
  · rcases first' with first' | ⟨first', -⟩
    · exact absurd (initial_mem w first') other
    · rw [first, first']

/-- The items after the first, and the end. -/
def itemsTail (p : Printer σ ν χ) (r : List χ) : List (Json σ ν) → List χ
  | [] => p.ascii ']' :: r
  | x :: xs => p.ascii ',' :: (printItems p (x :: xs) ++ p.ascii ']' :: r)

def fieldsTail (p : Printer σ ν χ) (r : List χ) : List (σ × Json σ ν) → List χ
  | [] => p.ascii '\x7d' :: r
  | e :: es => p.ascii ',' :: (printFields p (e :: es) ++ p.ascii '\x7d' :: r)

theorem printItems_cons (x : Json σ ν) (xs : List (Json σ ν)) (r : List χ) :
    printItems p (x :: xs) ++ p.ascii ']' :: r = print p x ++ itemsTail p r xs := by
  cases xs with
  | nil => rw [printItems, itemsTail]
  | cons y ys => rw [printItems, itemsTail, List.append_assoc, List.cons_append]

theorem printFields_cons (k : σ) (v : Json σ ν) (es : List (σ × Json σ ν)) (r : List χ) :
    printFields p ((k, v) :: es) ++ p.ascii '\x7d' :: r =
      p.quote k ++ (p.ascii ':' :: (print p v ++ fieldsTail p r es)) := by
  cases es with
  | nil => rw [printFields, fieldsTail, List.append_assoc, List.cons_append]
  | cons e es => simp only [printFields, fieldsTail, List.append_assoc, List.cons_append]

theorem ends_itemsTail (r : List χ) (xs : List (Json σ ν)) : Ends p.ascii (itemsTail p r xs) := by
  cases xs with
  | nil => exact .inr ⟨']', r, by decide, rfl⟩
  | cons x xs => exact .inr ⟨',', _, by decide, rfl⟩

theorem ends_fieldsTail (r : List χ) (es : List (σ × Json σ ν)) :
    Ends p.ascii (fieldsTail p r es) := by
  cases es with
  | nil => exact .inr ⟨'\x7d', r, by decide, rfl⟩
  | cons e es => exact .inr ⟨',', _, by decide, rfl⟩

theorem ascii_ne (h : Unambiguous p P N) {a b : Char} (ha : a.toNat < 128) (hb : b.toNat < 128)
    (other : a ≠ b) : p.ascii a ≠ p.ascii b := fun same => other (h.ascii_inj a b ha hb same)

mutual
/-- A value and what follows it, in front of the end or of closing punctuation. -/
theorem print_free (h : Unambiguous p P N) : ∀ (v w : Json σ ν) {r r' : List χ}, Within P N v →
    Within P N w → Ends p.ascii r → Ends p.ascii r' → print p v ++ r = print p w ++ r' →
    v = w ∧ r = r'
  | null, w, r, r', hv, hw, _, _, same => by
    obtain rfl := of_initial_null (h.initial_eq hv hw same).symm
    exact ⟨rfl, List.append_cancel_left same⟩
  | bool b, w, r, r', hv, hw, _, _, same => by
    obtain rfl := of_initial_bool (h.initial_eq hv hw same).symm
    exact ⟨rfl, List.append_cancel_left same⟩
  | num n, w, r, r', hv, hw, ends, ends', same => by
    obtain ⟨n', rfl⟩ := of_initial_num (h.initial_eq hv hw same).symm
    obtain rfl := h.number_free n n' r r' hv hw ends ends' same
    exact ⟨rfl, List.append_cancel_left same⟩
  | str s, w, r, r', hv, hw, _, _, same => by
    obtain ⟨s', rfl⟩ := of_initial_str (h.initial_eq hv hw same).symm
    obtain rfl := h.quote_free s s' r r' hv hw same
    exact ⟨rfl, List.append_cancel_left same⟩
  | arr items, w, r, r', hv, hw, _, _, same => by
    obtain ⟨items', rfl⟩ := of_initial_arr (h.initial_eq hv hw same).symm
    simp only [print, List.cons_append, List.append_assoc, List.nil_append, List.cons.injEq] at same
    obtain ⟨rfl, rest⟩ := printItems_free h items items' hv hw same.2
    exact ⟨rfl, rest⟩
  | obj fields, w, r, r', hv, hw, _, _, same => by
    obtain ⟨fields', rfl⟩ := of_initial_obj (h.initial_eq hv hw same).symm
    simp only [print, List.cons_append, List.append_assoc, List.nil_append, List.cons.injEq] at same
    obtain ⟨rfl, rest⟩ := printFields_free h fields fields' hv hw same.2
    exact ⟨rfl, rest⟩
theorem printItems_free (h : Unambiguous p P N) : ∀ (xs ys : List (Json σ ν)) {r r' : List χ},
    WithinItems P N xs → WithinItems P N ys →
    printItems p xs ++ p.ascii ']' :: r = printItems p ys ++ p.ascii ']' :: r' → xs = ys ∧ r = r'
  | [], [], r, r', _, _, same => ⟨rfl, (List.cons.inj same).2⟩
  | [], y :: ys, r, r', _, hy, same => by
    obtain ⟨c, tail, head, small, other, -⟩ := h.print_head hy.1
    rw [printItems_cons, head] at same
    refine absurd (List.cons.inj same).1 (h.ascii_ne (by decide) small ?_)
    rintro rfl
    exact other (by decide)
  | x :: xs, [], r, r', hx, _, same => by
    obtain ⟨c, tail, head, small, other, -⟩ := h.print_head hx.1
    rw [printItems_cons, head] at same
    refine absurd (List.cons.inj same).1 (h.ascii_ne small (by decide) ?_)
    rintro rfl
    exact other (by decide)
  | x :: xs, y :: ys, r, r', hx, hy, same => by
    rw [printItems_cons, printItems_cons] at same
    obtain ⟨rfl, rest⟩ := print_free h x y hx.1 hy.1 (ends_itemsTail r xs) (ends_itemsTail r' ys)
      same
    have comma : p.ascii ']' ≠ p.ascii ',' := h.ascii_ne (by decide) (by decide) (by decide)
    cases xs with
    | nil =>
      cases ys with
      | nil => exact ⟨rfl, (List.cons.inj rest).2⟩
      | cons y ys => exact absurd (List.cons.inj rest).1 comma
    | cons x xs =>
      cases ys with
      | nil => exact absurd (List.cons.inj rest).1 comma.symm
      | cons y ys =>
        obtain ⟨later, after⟩ := printItems_free h (x :: xs) (y :: ys) hx.2 hy.2
          (List.cons.inj rest).2
        rw [later]
        exact ⟨rfl, after⟩
theorem printFields_free (h : Unambiguous p P N) :
    ∀ (es ds : List (σ × Json σ ν)) {r r' : List χ}, WithinFields P N es → WithinFields P N ds →
    printFields p es ++ p.ascii '\x7d' :: r = printFields p ds ++ p.ascii '\x7d' :: r' →
    es = ds ∧ r = r'
  | [], [], r, r', _, _, same => ⟨rfl, (List.cons.inj same).2⟩
  | [], (k, v) :: ds, r, r', _, _, same => by
    obtain ⟨tail, head⟩ := h.quote_head k
    rw [printFields_cons, head] at same
    exact absurd (List.cons.inj same).1 (h.ascii_ne (by decide) (by decide) (by decide))
  | (k, v) :: es, [], r, r', _, _, same => by
    obtain ⟨tail, head⟩ := h.quote_head k
    rw [printFields_cons, head] at same
    exact absurd (List.cons.inj same).1 (h.ascii_ne (by decide) (by decide) (by decide))
  | (k, v) :: es, (k', v') :: ds, r, r', he, hd, same => by
    rw [printFields_cons, printFields_cons] at same
    obtain rfl := h.quote_free k k' _ _ he.1 hd.1 same
    have value := (List.cons.inj (List.append_cancel_left same)).2
    obtain ⟨rfl, rest⟩ := print_free h v v' he.2.1 hd.2.1 (ends_fieldsTail r es)
      (ends_fieldsTail r' ds) value
    have comma : p.ascii '\x7d' ≠ p.ascii ',' := h.ascii_ne (by decide) (by decide) (by decide)
    cases es with
    | nil =>
      cases ds with
      | nil => exact ⟨rfl, (List.cons.inj rest).2⟩
      | cons d ds => exact absurd (List.cons.inj rest).1 comma
    | cons e es =>
      cases ds with
      | nil => exact absurd (List.cons.inj rest).1 comma.symm
      | cons d ds =>
        obtain ⟨later, after⟩ := printFields_free h (e :: es) (d :: ds) he.2.2 hd.2.2
          (List.cons.inj rest).2
        rw [later]
        exact ⟨rfl, after⟩
end

/-- Different values are written differently. -/
theorem print_injective (h : Unambiguous p P N) {v w : Json σ ν} (hv : Within P N v)
    (hw : Within P N w) (same : print p v = print p w) : v = w := by
  have ends : print p v ++ [] = print p w ++ [] := congrArg (· ++ []) same
  exact (h.print_free v w hv hw (.inl rfl) (.inl rfl) ends).1

end Unambiguous

end Qev.Json
