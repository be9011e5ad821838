/-
Chip8.Proofs.Enlarging — the pixels of an image that is made of a picture.

Images are lists of rows, and everything here is said of `Image.pixel?`, the
colour at a place, and of `Image.Sized`, how many rows and columns there
are. Enlarging looks up the place divided by the scale (`pixel?_enlarge`),
and exchanging rows and columns looks up the exchanged place
(`pixel?_transpose`). `renderColumns_eq` puts the two together, for every
scale that counts repetitions (`magnify_of_lt`); a greater one is refused.
-/
import Mathlib.Data.List.FinRange
import Chip8.Render

namespace Chip8

namespace Image

/-- An image with this many rows, and this many pixels in each. -/
def Sized (i : Image) (height width : Nat) : Prop :=
  i.rows.length = height ∧ ∀ r ∈ i.rows, r.length = width

/-! ## Enlarging -/

theorem stretch_cons {α : Type} (n : Nat) (a : α) (rest : List α) :
    stretch n (a :: rest) = List.replicate n a ++ stretch n rest := List.flatMap_cons

theorem length_stretch {α : Type} (n : Nat) (xs : List α) :
    (stretch n xs).length = xs.length * n := by
  simp [stretch]

/-- Every entry of a list takes `n` places. -/
theorem getElem?_stretch {α : Type} {n : Nat} (hn : 0 < n) (xs : List α) (i : Nat) :
    (stretch n xs)[i]? = xs[i / n]? := by
  induction xs generalizing i with
  | nil => rfl
  | cons a rest ih =>
    rw [stretch_cons, List.getElem?_append, List.length_replicate]
    by_cases hi : i < n
    · rw [if_pos hi, List.getElem?_replicate, if_pos hi, Nat.div_eq_of_lt hi]
      rfl
    · have hdiv : i / n = (i - n) / n + 1 := Nat.div_eq_sub_div hn (Nat.le_of_not_lt hi)
      rw [if_neg hi, ih, hdiv, List.getElem?_cons_succ]

/-- Every pixel becomes a square. -/
theorem pixel?_enlarge {n : Nat} (hn : 0 < n) (i : Image) (row column : Nat) :
    (i.enlarge n).pixel? row column = i.pixel? (row / n) (column / n) := by
  unfold pixel? enlarge
  rw [getElem?_stretch hn, List.getElem?_map]
  cases i.rows[row / n]? with
  | none => rfl
  | some r => exact getElem?_stretch hn r column

theorem sized_enlarge {i : Image} {height width : Nat} (h : i.Sized height width) (n : Nat) :
    (i.enlarge n).Sized (height * n) (width * n) := by
  refine ⟨?_, fun r hr => ?_⟩
  · rw [enlarge, length_stretch, List.length_map, h.1]
  · obtain ⟨row, hrow, hmem⟩ := List.mem_flatMap.mp hr
    obtain ⟨q, hq, rfl⟩ := List.mem_map.mp hrow
    rw [List.eq_of_mem_replicate hmem, length_stretch, h.2 q hq]

/-! ## Rows and columns -/

/-- Rows of one length have as many columns. -/
theorem length_columns {α : Type} (width : Nat) {rows : List (List α)}
    (h : ∀ r ∈ rows, r.length = width) :
    (rows.foldr (List.zipWith List.cons) (List.replicate width [])).length = width := by
  induction rows with
  | nil => exact List.length_replicate
  | cons r rest ih =>
    have hr := h r List.mem_cons_self
    have hrest := ih fun q hq => h q (List.mem_cons_of_mem r hq)
    rw [List.foldr_cons, List.length_zipWith, hr, hrest, Nat.min_self]

theorem getElem?_columns {α : Type} (width : Nat) {rows : List (List α)}
    (h : ∀ r ∈ rows, r.length = width) (row column : Nat) :
    ((rows.foldr (List.zipWith List.cons) (List.replicate width []))[column]?).bind (·[row]?) =
      (rows[row]?).bind (·[column]?) := by
  induction rows generalizing row with
  | nil =>
    rw [List.foldr_nil, List.getElem?_replicate]
    split <;> simp
  | cons r rest ih =>
    have hr := h r List.mem_cons_self
    have hall : ∀ q ∈ rest, q.length = width := fun q hq => h q (List.mem_cons_of_mem r hq)
    have hlength := length_columns width hall
    rw [List.foldr_cons, List.getElem?_zipWith]
    by_cases hcolumn : column < width
    · -- Both the first row and the columns of the others reach this far.
      have hfirst : r[column]? = some r[column] := List.getElem?_eq_getElem _
      have hothers := List.getElem?_eq_getElem (hlength.symm ▸ hcolumn)
      rw [hfirst, hothers]
      cases row with
      | zero => simp [hfirst]
      | succ row =>
        rw [List.getElem?_cons_succ, ← ih hall row, hothers]
        rfl
    · have hfirst : r[column]? = none := List.getElem?_eq_none (by omega)
      rw [hfirst]
      cases row with
      | zero => simp [hfirst]
      | succ row =>
        rw [List.getElem?_cons_succ, ← ih hall row, List.getElem?_eq_none (by omega)]
        rfl

/-- A column has an entry for every row. -/
theorem length_of_mem_columns {α : Type} (width : Nat) {rows : List (List α)} {column : List α}
    (h : column ∈ rows.foldr (List.zipWith List.cons) (List.replicate width [])) :
    column.length = rows.length := by
  induction rows generalizing column with
  | nil =>
    obtain rfl := List.eq_of_mem_replicate h
    rfl
  | cons r rest ih =>
    obtain ⟨k, hk⟩ := List.mem_iff_getElem?.mp h
    rw [List.foldr_cons, List.getElem?_zipWith] at hk
    cases hfirst : r[k]? with
    | none => simp [hfirst] at hk
    | some a =>
      cases hother : (rest.foldr (List.zipWith List.cons) (List.replicate width []))[k]? with
      | none => simp [hother] at hk
      | some other =>
        simp only [hfirst, hother, Option.some.injEq] at hk
        rw [← hk, List.length_cons, List.length_cons, ih (List.mem_of_getElem? hother)]

theorem width_of_sized {i : Image} {height width : Nat} (h : i.Sized height width)
    (hheight : 0 < height) : i.width = width := by
  obtain ⟨rows⟩ := i
  cases rows with
  | nil => exact absurd h.1 (Nat.ne_of_lt hheight)
  | cons r rest => exact h.2 r List.mem_cons_self

theorem sized_transpose {i : Image} {height width : Nat} (h : i.Sized height width)
    (hheight : 0 < height) : i.transpose.Sized width height := by
  have hwidth := width_of_sized h hheight
  refine ⟨?_, fun column hcolumn => ?_⟩
  · exact (length_columns i.width fun r hr => (h.2 r hr).trans hwidth.symm).trans hwidth
  · exact (length_of_mem_columns i.width hcolumn).trans h.1

/-- Exchanging rows and columns exchanges the indices of every pixel. -/
theorem pixel?_transpose {i : Image} {height width : Nat} (h : i.Sized height width)
    (hheight : 0 < height) (row column : Nat) :
    i.transpose.pixel? column row = i.pixel? row column :=
  getElem?_columns i.width (fun r hr => (h.2 r hr).trans (width_of_sized h hheight).symm) row column

/-! ## Pictures -/

theorem getElem?_map_finRange {α : Type} {n : Nat} (f : Fin n → α) (k : Nat) :
    ((List.finRange n).map f)[k]? = if h : k < n then some (f ⟨k, h⟩) else none := by
  by_cases hk : k < n
  · rw [dif_pos hk, List.getElem?_eq_getElem (by simpa using hk)]
    simp
  · rw [dif_neg hk]
    exact List.getElem?_eq_none (by simpa using hk)

/-- The colour of the pixel of a picture in column `x` and row `y`, if it reaches as far. -/
def shade? (s : Screen) (p : Palette) (x y : Nat) : Option Color :=
  if x < 64 ∧ y < 32 then some (if (Frame.ofScreen s).lit [x, y] then p.on else p.off) else none

/-- A lit pixel has the one colour and a dark one the other. -/
theorem shade?_of_lt (s : Screen) (p : Palette) (x : Fin 64) (y : Fin 32) :
    shade? s p x.val y.val = some (if s.get x y then p.on else p.off) := by
  have hlit : (Frame.ofScreen s).lit [x.val, y.val] = s.get x y := dif_pos ⟨x.isLt, y.isLt⟩
  rw [shade?, if_pos ⟨x.isLt, y.isLt⟩, hlit]

theorem pixel?_ofScreen (s : Screen) (p : Palette) (x y : Nat) :
    (ofScreen s p).pixel? y x = shade? s p x y := by
  unfold pixel? ofScreen Screen.rows
  rw [List.map_map, getElem?_map_finRange]
  by_cases hy : y < 32
  · rw [dif_pos hy, Option.bind_some, Function.comp_apply, Screen.row, List.map_map,
      getElem?_map_finRange]
    by_cases hx : x < 64
    · rw [dif_pos hx]
      exact (shade?_of_lt s p ⟨x, hx⟩ ⟨y, hy⟩).symm
    · rw [dif_neg hx, shade?, if_neg fun h => hx h.1]
  · rw [dif_neg hy, shade?, if_neg fun h => hy h.2, Option.bind_none]

theorem sized_ofScreen (s : Screen) (p : Palette) : (ofScreen s p).Sized 32 64 := by
  refine ⟨by simp [ofScreen, Screen.rows], fun r hr => ?_⟩
  obtain ⟨row, hrow, rfl⟩ := List.mem_map.mp hr
  obtain ⟨y, -, rfl⟩ := List.mem_map.mp hrow
  simp [Screen.row]

/-! ## Scales -/

/-- A scale that a signed word of 64 bits can hold is a number of repetitions. -/
theorem magnify_of_lt (i : Image) {side : Int} (h : 1 ≤ side) (hmax : side < 9223372036854775808) :
    i.magnify side = .ok (i.enlarge side.toNat) := by
  have hword : isLongWord side = true := by
    simp only [isLongWord, Bool.and_eq_true, decide_eq_true_eq]
    omega
  rw [magnify, if_pos hword]

theorem magnify_of_le (i : Image) {side : Int} (h : 9223372036854775808 ≤ side) :
    i.magnify side = .error (.repeats side) := by
  have hword : ¬ isLongWord side = true := by
    simp only [isLongWord, Bool.and_eq_true, decide_eq_true_eq]
    omega
  rw [magnify, if_neg hword]

theorem checkScale_of_le {scale : Int} (h : 1 ≤ scale) : checkScale scale = .ok () :=
  if_neg (by omega)

theorem checkScale_of_small {scale : Int} (h : scale < 1) :
    checkScale scale = .error (.scale scale) := if_pos h

/-- **An image by columns**: its pixel in column `x` and row `y` shows the pixel of the picture at
these divided by the scale. -/
theorem renderColumns_eq (s : Screen) {scale : Int} (p : Palette) (h : 1 ≤ scale)
    (hmax : scale < 9223372036854775808) :
    ∃ image, renderColumns s scale p = .ok image ∧
      image.Sized (64 * scale.toNat) (32 * scale.toNat) ∧
      ∀ x y, image.pixel? x y = shade? s p (x / scale.toNat) (y / scale.toNat) := by
  have hsized := sized_ofScreen s p
  refine ⟨(ofScreen s p).transpose.enlarge scale.toNat, ?_,
    sized_enlarge (sized_transpose hsized (by decide)) _, fun x y => ?_⟩
  · rw [renderColumns, checkScale_of_le h]
    exact magnify_of_lt _ h hmax
  · rw [pixel?_enlarge (by omega), pixel?_transpose hsized (by decide), pixel?_ofScreen]

/-- A scale below one is refused. -/
theorem renderColumns_of_small (s : Screen) {scale : Int} (p : Palette) (h : scale < 1) :
    renderColumns s scale p = .error (.scale scale) := by
  rw [renderColumns, checkScale_of_small h]
  rfl

/-- A scale that is no number of repetitions is refused. -/
theorem renderColumns_of_large (s : Screen) {scale : Int} (p : Palette)
    (h : 9223372036854775808 ≤ scale) : renderColumns s scale p = .error (.repeats scale) := by
  rw [renderColumns, checkScale_of_le (by omega)]
  exact magnify_of_le _ h

end Image

end Chip8
