import Mathlib.Data.List.Perm.Subperm
import Qev.Lib.JsSort

/-! JSON values that differ in the order of keys only: what sorting the keys at
every level decides. -/

namespace Qev.Json

variable {σ ν μ : Type}

mutual
/-- Equal up to the order of keys in objects, numbers by `eq`. -/
def Alike (eq : ν → ν → Prop) : Json σ ν → Json σ ν → Prop
  | null, null => True
  | bool a, bool b => a = b
  | num m, num n => eq m n
  | str s, str t => s = t
  | arr xs, arr ys => AlikeItems eq xs ys
  | obj fs, obj gs => fs.length = gs.length ∧ AlikeFields eq fs gs
  | _, _ => False
def AlikeItems (eq : ν → ν → Prop) : List (Json σ ν) → List (Json σ ν) → Prop
  | [], [] => True
  | x :: xs, y :: ys => Alike eq x y ∧ AlikeItems eq xs ys
  | _, _ => False
def AlikeFields (eq : ν → ν → Prop) : List (σ × Json σ ν) → List (σ × Json σ ν) → Prop
  | [], _ => True
  | (k, v) :: es, gs => (∃ w, (k, w) ∈ gs ∧ Alike eq v w) ∧ AlikeFields eq es gs
end

mutual
def mapNumbers (f : ν → μ) : Json σ ν → Json σ μ
  | null => null
  | bool b => bool b
  | num n => num (f n)
  | str s => str s
  | arr items => arr (mapItems f items)
  | obj fields => obj (mapFields f fields)
def mapItems (f : ν → μ) : List (Json σ ν) → List (Json σ μ)
  | [] => []
  | x :: xs => mapNumbers f x :: mapItems f xs
def mapFields (f : ν → μ) : List (σ × Json σ ν) → List (σ × Json σ μ)
  | [] => []
  | (k, v) :: es => (k, mapNumbers f v) :: mapFields f es
end

theorem mapFields_eq (f : ν → μ) (fields : List (σ × Json σ ν)) :
    mapFields f fields = fields.map fun e => (e.1, mapNumbers f e.2) := by
  induction fields with
  | nil => rfl
  | cons e es ih => rw [mapFields, ih, List.map_cons]

mutual
/-- Numbers that are compared by what a function makes of them. -/
theorem alike_mapNumbers (f : ν → μ) : ∀ v w : Json σ ν,
    Alike (· = ·) (mapNumbers f v) (mapNumbers f w) ↔ Alike (fun m n => f m = f n) v w
  | null, w | bool _, w | num _, w | str _, w => by cases w <;> exact Iff.rfl
  | arr xs, w => by
    cases w with
    | arr ys => exact alike_mapItems f xs ys
    | _ => exact Iff.rfl
  | obj fs, w => by
    cases w with
    | obj gs =>
      simp only [mapNumbers, Alike, mapFields_eq, List.length_map]
      rw [← mapFields_eq, ← mapFields_eq, alike_mapFields f fs gs]
    | _ => exact Iff.rfl
theorem alike_mapItems (f : ν → μ) : ∀ xs ys : List (Json σ ν),
    AlikeItems (· = ·) (mapItems f xs) (mapItems f ys) ↔ AlikeItems (fun m n => f m = f n) xs ys
  | [], [] | [], _ :: _ | _ :: _, [] => Iff.rfl
  | x :: xs, y :: ys => and_congr (alike_mapNumbers f x y) (alike_mapItems f xs ys)
theorem alike_mapFields (f : ν → μ) : ∀ fs gs : List (σ × Json σ ν),
    AlikeFields (· = ·) (mapFields f fs) (mapFields f gs) ↔
      AlikeFields (fun m n => f m = f n) fs gs
  | [], _ => Iff.rfl
  | (k, v) :: es, gs => by
    refine and_congr ?_ (alike_mapFields f es gs)
    constructor
    · rintro ⟨w', mem, alike⟩
      rw [mapFields_eq] at mem
      obtain ⟨⟨k', w⟩, here, same⟩ := List.mem_map.mp mem
      obtain ⟨rfl, rfl⟩ := Prod.mk.inj same
      exact ⟨w, here, (alike_mapNumbers f v w).mp alike⟩
    · rintro ⟨w, mem, alike⟩
      refine ⟨mapNumbers f w, ?_, (alike_mapNumbers f v w).mpr alike⟩
      rw [mapFields_eq]
      exact List.mem_map.mpr ⟨(k, w), mem, rfl⟩
end

mutual
theorem print_mapNumbers {χ : Type} (p : Printer σ μ χ) (f : ν → μ) : ∀ v : Json σ ν,
    print p (mapNumbers f v) = print ⟨p.ascii, p.quote, fun n => p.number (f n)⟩ v
  | null | bool _ | num _ | str _ => rfl
  | arr items => by
    rw [mapNumbers, print, print, print_mapItems p f items]
  | obj fields => by
    rw [mapNumbers, print, print, print_mapFields p f fields]
theorem print_mapItems {χ : Type} (p : Printer σ μ χ) (f : ν → μ) : ∀ items : List (Json σ ν),
    printItems p (mapItems f items) = printItems ⟨p.ascii, p.quote, fun n => p.number (f n)⟩ items
  | [] => rfl
  | [x] => print_mapNumbers p f x
  | x :: y :: xs => by
    have later := print_mapItems p f (y :: xs)
    rw [mapItems] at later
    rw [mapItems, mapItems, printItems, printItems, print_mapNumbers p f x, later]
theorem print_mapFields {χ : Type} (p : Printer σ μ χ) (f : ν → μ) :
    ∀ fields : List (σ × Json σ ν), printFields p (mapFields f fields) =
      printFields ⟨p.ascii, p.quote, fun n => p.number (f n)⟩ fields
  | [] => rfl
  | [(k, v)] => by
    rw [mapFields, mapFields, printFields, printFields, print_mapNumbers p f v]
  | (k, v) :: (l, w) :: es => by
    have later := print_mapFields p f ((l, w) :: es)
    rw [mapFields] at later
    rw [mapFields, mapFields, printFields, printFields, print_mapNumbers p f v, later]
end

mutual
theorem mapNumbers_eq_self {f : ν → ν} {P : ν → Prop} (same : ∀ n, P n → f n = n) :
    ∀ v : Json σ ν, Numbers P v → mapNumbers f v = v
  | null, _ | bool _, _ | str _, _ => rfl
  | num n, h => congrArg num (same n h)
  | arr items, h => congrArg arr (mapItems_eq_self same items h)
  | obj fields, h => congrArg obj (mapFields_eq_self same fields h)
theorem mapItems_eq_self {f : ν → ν} {P : ν → Prop} (same : ∀ n, P n → f n = n) :
    ∀ items : List (Json σ ν), NumbersItems P items → mapItems f items = items
  | [], _ => rfl
  | x :: xs, h => by
    rw [mapItems, mapNumbers_eq_self same x h.1, mapItems_eq_self same xs h.2]
theorem mapFields_eq_self {f : ν → ν} {P : ν → Prop} (same : ∀ n, P n → f n = n) :
    ∀ fields : List (σ × Json σ ν), NumbersFields P fields → mapFields f fields = fields
  | [], _ => rfl
  | (k, v) :: es, h => by
    rw [mapFields, mapNumbers_eq_self same v h.1, mapFields_eq_self same es h.2]
end

mutual
theorem Keys.imp {P Q : List σ → Prop} (h : ∀ ks, P ks → Q ks) :
    ∀ v : Json σ ν, Keys P v → Keys Q v
  | null, _ | bool _, _ | num _, _ | str _, _ => trivial
  | arr items, hv => KeysItems.imp h items hv
  | obj fields, hv => ⟨h _ hv.1, KeysFields.imp h fields hv.2⟩
theorem KeysItems.imp {P Q : List σ → Prop} (h : ∀ ks, P ks → Q ks) :
    ∀ items : List (Json σ ν), KeysItems P items → KeysItems Q items
  | [], _ => trivial
  | x :: xs, hv => ⟨Keys.imp h x hv.1, KeysItems.imp h xs hv.2⟩
theorem KeysFields.imp {P Q : List σ → Prop} (h : ∀ ks, P ks → Q ks) :
    ∀ fields : List (σ × Json σ ν), KeysFields P fields → KeysFields Q fields
  | [], _ => trivial
  | (_, v) :: es, hv => ⟨Keys.imp h v hv.1, KeysFields.imp h es hv.2⟩
end

/-- Induction over a value, with the hypothesis for everything in it. -/
@[elab_as_elim]
theorem induction {motive : Json σ ν → Prop} (null : motive null) (bool : ∀ b, motive (bool b))
    (num : ∀ n, motive (num n)) (str : ∀ s, motive (str s))
    (arr : ∀ items, (∀ x ∈ items, motive x) → motive (arr items))
    (obj : ∀ fields, (∀ f ∈ fields, motive f.2) → motive (obj fields)) : ∀ v, motive v
  | .null => null
  | .bool b => bool b
  | .num n => num n
  | .str s => str s
  | .arr items => arr items fun x mem =>
      have := List.sizeOf_lt_of_mem mem
      induction null bool num str arr obj x
  | .obj fields => obj fields fun f mem =>
      have := List.sizeOf_lt_of_mem mem
      induction null bool num str arr obj f.2
termination_by v => sizeOf v
decreasing_by
  · simp only [Json.arr.sizeOf_spec]
    omega
  · obtain ⟨k, v⟩ := f
    simp only [Prod.mk.sizeOf_spec, Json.obj.sizeOf_spec] at this ⊢
    omega

theorem keysItems_iff {P : List σ → Prop} {items : List (Json σ ν)} :
    KeysItems P items ↔ ∀ x ∈ items, Keys P x := by
  induction items with
  | nil => simp [KeysItems]
  | cons x items ih => simp [KeysItems, ih]

/-! ## Sorting decides -/

section Sorting

variable [LT σ] [DecidableLT σ]

theorem insertField_mapFields (f : ν → μ) (e : σ × Json σ ν) (fields : List (σ × Json σ ν)) :
    insertField (e.1, mapNumbers f e.2) (mapFields f fields) =
      mapFields f (insertField e fields) := by
  induction fields with
  | nil => rfl
  | cons g fields ih =>
    rw [mapFields, insertField, insertField]
    split
    · rfl
    · rw [ih, mapFields]

mutual
theorem sortKeys_mapNumbers (f : ν → μ) : ∀ v : Json σ ν,
    sortKeys (mapNumbers f v) = mapNumbers f (sortKeys v)
  | null | bool _ | num _ | str _ => rfl
  | arr items => congrArg arr (sortItems_mapItems f items)
  | obj fields => congrArg obj (sortFields_mapFields f fields)
theorem sortItems_mapItems (f : ν → μ) : ∀ items : List (Json σ ν),
    sortItems (mapItems f items) = mapItems f (sortItems items)
  | [] => rfl
  | x :: xs => by
    rw [mapItems, sortItems, sortItems, mapItems, sortKeys_mapNumbers f x, sortItems_mapItems f xs]
theorem sortFields_mapFields (f : ν → μ) : ∀ fields : List (σ × Json σ ν),
    sortFields (mapFields f fields) = mapFields f (sortFields fields)
  | [] => rfl
  | (k, v) :: es => by
    rw [mapFields, sortFields, sortFields, sortKeys_mapNumbers f v, sortFields_mapFields f es,
      ← insertField_mapFields f (k, sortKeys v)]
end

theorem length_insertField (f : σ × Json σ ν) (fields : List (σ × Json σ ν)) :
    (insertField f fields).length = fields.length + 1 := by
  induction fields with
  | nil => rfl
  | cons g fields ih =>
    rw [insertField]
    split
    · rfl
    · rw [List.length_cons, ih, List.length_cons]

theorem length_sorted (fields : List (σ × Json σ ν)) : (sorted fields).length = fields.length := by
  induction fields with
  | nil => rfl
  | cons f fields ih => rw [sorted_cons, length_insertField, ih, List.length_cons]

theorem fst_sortKeys (fields : List (σ × Json σ ν)) :
    (fields.map fun f => (f.1, sortKeys f.2)).map Prod.fst = fields.map Prod.fst := by
  rw [List.map_map]
  rfl

theorem sortItems_eq (items : List (Json σ ν)) : sortItems items = items.map sortKeys := by
  induction items with
  | nil => rfl
  | cons x items ih => rw [sortItems, ih, List.map_cons]

/-- Items are alike just where they are made equal, if each of the first is so. -/
theorem alikeItems_iff {xs : List (Json σ ν)}
    (each : ∀ x ∈ xs, ∀ w, Keys List.Nodup x → Keys List.Nodup w →
      (Alike (· = ·) x w ↔ sortKeys x = sortKeys w)) :
    ∀ ys, KeysItems List.Nodup xs → KeysItems List.Nodup ys →
      (AlikeItems (· = ·) xs ys ↔ sortItems xs = sortItems ys) := by
  induction xs with
  | nil =>
    intro ys _ _
    cases ys <;> simp [AlikeItems, sortItems]
  | cons x xs ih =>
    intro ys hx hy
    cases ys with
    | nil => simp [AlikeItems, sortItems]
    | cons y ys =>
      rw [sortItems, sortItems, List.cons.injEq, AlikeItems,
        each x List.mem_cons_self y hx.1 hy.1,
        ih (fun x mem => each x (List.mem_cons_of_mem _ mem)) ys hx.2 hy.2]

/-- The same for fields, each of which is alike to one of the others. -/
theorem alikeFields_iff {fs gs : List (σ × Json σ ν)}
    (each : ∀ f ∈ fs, ∀ w, Keys List.Nodup f.2 → Keys List.Nodup w →
      (Alike (· = ·) f.2 w ↔ sortKeys f.2 = sortKeys w))
    (hf : KeysFields List.Nodup fs) (hg : KeysFields List.Nodup gs) :
    AlikeFields (· = ·) fs gs ↔
      ∀ f ∈ fs.map fun f => (f.1, sortKeys f.2), f ∈ gs.map fun f => (f.1, sortKeys f.2) := by
  induction fs with
  | nil => simp [AlikeFields]
  | cons f fs ih =>
    obtain ⟨k, v⟩ := f
    have other {g : σ × Json σ ν} (mem : g ∈ gs) :
        Alike (· = ·) v g.2 ↔ sortKeys v = sortKeys g.2 :=
      each (k, v) List.mem_cons_self g.2 hf.1 (keysFields_iff.mp hg g mem)
    rw [AlikeFields, ih (fun f mem => each f (List.mem_cons_of_mem _ mem)) hf.2, List.map_cons,
      List.forall_mem_cons]
    refine and_congr_left fun _ => ?_
    constructor
    · rintro ⟨w, mem, alike⟩
      rw [(other mem).mp alike]
      exact List.mem_map_of_mem mem
    · intro mem
      obtain ⟨⟨k', w⟩, here, same⟩ := List.mem_map.mp mem
      obtain ⟨rfl, equal⟩ := Prod.mk.inj same
      exact ⟨w, here, (other here).mpr equal.symm⟩

variable [Trans (α := σ) (· < ·) (· < ·) (· < ·)] [Std.Trichotomous (α := σ) (· < ·)]
  [Std.Asymm (α := σ) (· < ·)]

/-- Fields with different keys are sorted the same just where each of them is
among as many others. -/
theorem sorted_eq_sorted_iff {fs gs : List (σ × Json σ ν)} (hf : (fs.map Prod.fst).Nodup)
    (hg : (gs.map Prod.fst).Nodup) :
    sorted fs = sorted gs ↔ fs.length = gs.length ∧ ∀ f ∈ fs, f ∈ gs := by
  constructor
  · intro same
    refine ⟨by rw [← length_sorted fs, same, length_sorted], fun f mem => ?_⟩
    rw [← mem_sorted, ← same, mem_sorted]
    exact mem
  · rintro ⟨length, inside⟩
    have perm : fs.Perm gs :=
      (List.subperm_of_subset hf.of_map inside).perm_of_length_le length.ge
    apply sorted_eq hf (pairwise_sorted hg)
    intro f
    rw [mem_sorted, perm.mem_iff]

/-- Values are alike just where sorting their keys makes them equal. -/
theorem alike_iff (v : Json σ ν) : ∀ w : Json σ ν, Keys List.Nodup v → Keys List.Nodup w →
    (Alike (· = ·) v w ↔ sortKeys v = sortKeys w) := by
  induction v using Json.induction with
  | null | bool | num | str =>
    intro w _ _
    cases w <;> simp [Alike, sortKeys]
  | arr xs each =>
    intro w hv hw
    cases w with
    | arr ys =>
      rw [sortKeys, sortKeys, arr.injEq]
      exact alikeItems_iff each ys hv hw
    | _ => simp [Alike, sortKeys]
  | obj fs each =>
    intro w hv hw
    cases w with
    | obj gs =>
      rw [sortKeys, sortKeys, obj.injEq, sortFields_eq, sortFields_eq, sorted_eq_sorted_iff
        (by rw [fst_sortKeys]; exact hv.1) (by rw [fst_sortKeys]; exact hw.1), List.length_map,
        List.length_map, Alike, alikeFields_iff each hv.2 hw.2]
    | _ => simp [Alike, sortKeys]

theorem nodup_sorted {fields : List (σ × Json σ ν)} (nodup : (fields.map Prod.fst).Nodup) :
    ((sorted fields).map Prod.fst).Nodup :=
  (pairwise_sorted nodup).imp fun less same => by
    subst same
    exact Std.Asymm.asymm _ _ less less

theorem nodup_sortKeys (v : Json σ ν) (nodup : Keys List.Nodup v) :
    Keys List.Nodup (sortKeys v) := by
  induction v using Json.induction with
  | null | bool | num | str => trivial
  | arr items each =>
    rw [sortKeys, sortItems_eq]
    apply keysItems_iff.mpr
    rw [List.forall_mem_map]
    exact fun x mem => each x mem (keysItems_iff.mp nodup x mem)
  | obj fields each =>
    rw [sortKeys, sortFields_eq]
    refine ⟨nodup_sorted (by rw [fst_sortKeys]; exact nodup.1), keysFields_iff.mpr fun f mem => ?_⟩
    obtain ⟨e, here, rfl⟩ := List.mem_map.mp (mem_sorted.mp mem)
    exact each e here (keysFields_iff.mp nodup.2 e here)

/-- Fields that were put in another order, their values sorted on the way, are
sorted as they were. -/
theorem sortFields_eq_of_mem {fields placed : List (σ × Json σ ν)}
    (nodup : (fields.map Prod.fst).Nodup) (nodup' : (placed.map Prod.fst).Nodup)
    {g : Json σ ν → Json σ ν} (same : ∀ f, f ∈ placed ↔ f ∈ fields.map fun e => (e.1, g e.2))
    (values : ∀ e ∈ fields, sortKeys (g e.2) = sortKeys e.2) :
    sortFields placed = sortFields fields := by
  rw [sortFields_eq, sortFields_eq]
  apply sorted_eq (by rw [fst_sortKeys]; exact nodup')
    (pairwise_sorted (by rw [fst_sortKeys]; exact nodup))
  intro f
  rw [mem_sorted, List.mem_map, List.mem_map]
  constructor
  · rintro ⟨e, mem, rfl⟩
    obtain ⟨d, here, rfl⟩ := List.mem_map.mp ((same e).mp mem)
    exact ⟨d, here, by rw [values d here]⟩
  · rintro ⟨e, here, rfl⟩
    exact ⟨(e.1, g e.2), (same _).mpr (List.mem_map.mpr ⟨e, here, rfl⟩), by rw [values e here]⟩

theorem sortKeys_sortKeys (v : Json σ ν) (nodup : Keys List.Nodup v) :
    sortKeys (sortKeys v) = sortKeys v := by
  induction v using Json.induction with
  | null | bool | num | str => rfl
  | arr items each =>
    rw [sortKeys, sortKeys, sortItems_eq, sortItems_eq, List.map_map, arr.injEq]
    exact List.map_congr_left fun x mem => each x mem (keysItems_iff.mp nodup x mem)
  | obj fields each =>
    rw [sortKeys, sortKeys, obj.injEq]
    refine sortFields_eq_of_mem (g := sortKeys) nodup.1 ?_ (fun f => ?_)
      fun e mem => each e mem (keysFields_iff.mp nodup.2 e mem)
    · rw [sortFields_eq]
      exact nodup_sorted (by rw [fst_sortKeys]; exact nodup.1)
    · rw [sortFields_eq, mem_sorted]

end Sorting

end Qev.Json
