import AcojWorker.Data.DigitalLine
import Mathlib.Data.List.Chain

/-!
# Lines on a captcha

The noise on a captcha is drawn as straight lines between random points. The loop that draws one
has no bound: it ends when the pen is exactly at the end of the line. It always gets there, over
points that adjoin each other, in as many steps as the longer coordinate needs.
-/

namespace AcojWorker.Captcha

open DigitalLine

abbrev Point : Type := Int × Int

/-- Red, green and blue. -/
structure Color where
  red : UInt8
  green : UInt8
  blue : UInt8

/-- The image under construction: three bytes for each of `width * height` pixels. -/
structure Canvas where
  pixels : List UInt8
  width : Int
  height : Int

/-- A pixel outside of the image is not drawn. -/
def Canvas.setPixel (canvas : Canvas) (x y : Int) (color : Color) : Canvas :=
  if x < 0 ∨ x ≥ canvas.width ∨ y < 0 ∨ y ≥ canvas.height then canvas
  else
    let offset := ((y * canvas.width + x) * 3).toNat
    { canvas with
      pixels := canvas.pixels.take offset ++ [color.red, color.green, color.blue] ++
        canvas.pixels.drop (offset + 3) }

/-- What the loop keeps unchanged. -/
structure Line where
  dx : Int
  dy : Int
  sx : Int
  sy : Int
  x2 : Int
  y2 : Int

@[ext]
structure Pen where
  x1 : Int
  y1 : Int
  error : Int

def Line.between (x1 y1 x2 y2 : Int) : Line where
  dx := |x2 - x1|
  dy := -|y2 - y1|
  sx := if x1 < x2 then 1 else -1
  sy := if y1 < y2 then 1 else -1
  x2 := x2
  y2 := y2

/-- The two updates at the end of the loop's body. Both look at the error as it was before. -/
def Line.move (line : Line) (pen : Pen) : Pen :=
  let e2 := 2 * pen.error
  let pen :=
    if e2 ≥ line.dy then { pen with error := pen.error + line.dy, x1 := pen.x1 + line.sx }
    else pen
  if e2 ≤ line.dx then { pen with error := pen.error + line.dx, y1 := pen.y1 + line.sy }
  else pen

/-- The loop, in at most `fuel` rounds: the points that have been visited, and the image. -/
def Line.draw (line : Line) (color : Color) : Nat → Pen → Canvas → Option (List Point × Canvas)
  | 0, _, _ => none
  | fuel + 1, pen, canvas =>
      let canvas := canvas.setPixel pen.x1 pen.y1 color
      if pen.x1 = line.x2 ∧ pen.y1 = line.y2 then some ([(pen.x1, pen.y1)], canvas)
      else
        (line.draw color fuel (line.move pen) canvas).map fun (points, canvas) =>
          ((pen.x1, pen.y1) :: points, canvas)

def drawLine (fuel : Nat) (canvas : Canvas) (x1 y1 x2 y2 : Int) (color : Color) :
    Option (List Point × Canvas) :=
  let line := Line.between x1 y1 x2 y2
  line.draw color fuel ⟨x1, y1, line.dx + line.dy⟩ canvas

/-- A line is directed to its end along both coordinates. -/
structure Line.Directed (line : Line) : Prop where
  alongX : line.sx = 1 ∨ line.sx = -1
  alongY : line.sy = 1 ∨ line.sy = -1

theorem Line.between_directed (x1 y1 x2 y2 : Int) : (Line.between x1 y1 x2 y2).Directed := by
  constructor
  · exact ite_eq_or_eq ..
  · exact ite_eq_or_eq ..

def Canvas.setPixels (canvas : Canvas) (color : Color) (points : List Point) : Canvas :=
  points.foldl (fun canvas point => canvas.setPixel point.1 point.2 color) canvas

/-! ### Where the pen is -/

/-- The pen when `p` and `q` are left of the two coordinates' ways. -/
def Line.pen (line : Line) (p q : Int) : Pen where
  x1 := line.x2 - line.sx * p
  y1 := line.y2 - line.sy * q
  error := -line.dy * p - line.dx * q + line.dx + line.dy

/-- The error says whether a coordinate takes a step. -/
theorem Line.move_pen (line : Line) (p q : Int) :
    line.move (line.pen p q) =
      line.pen (rest line.dx (-line.dy) p q) (rest (-line.dy) line.dx q p) := by
  have stepX : 2 * (line.pen p q).error ≥ line.dy ↔ Steps line.dx (-line.dy) p q := by
    simp only [Line.pen, Steps]
    omega
  have stepY : 2 * (line.pen p q).error ≤ line.dx ↔ Steps (-line.dy) line.dx q p := by
    simp only [Line.pen, Steps]
    omega
  simp only [Line.move, rest, stepX, stepY]
  by_cases alongY : Steps (-line.dy) line.dx q p
  · rw [if_pos alongY, if_pos alongY]
    split
    · apply Pen.ext
      · show line.x2 - line.sx * p + line.sx = line.x2 - line.sx * (p - 1)
        ring
      · show line.y2 - line.sy * q + line.sy = line.y2 - line.sy * (q - 1)
        ring
      · show -line.dy * p - line.dx * q + line.dx + line.dy + line.dy + line.dx =
          -line.dy * (p - 1) - line.dx * (q - 1) + line.dx + line.dy
        ring
    · apply Pen.ext
      · rfl
      · show line.y2 - line.sy * q + line.sy = line.y2 - line.sy * (q - 1)
        ring
      · show -line.dy * p - line.dx * q + line.dx + line.dy + line.dx =
          -line.dy * p - line.dx * (q - 1) + line.dx + line.dy
        ring
  · rw [if_neg alongY, if_neg alongY]
    split
    · apply Pen.ext
      · show line.x2 - line.sx * p + line.sx = line.x2 - line.sx * (p - 1)
        ring
      · rfl
      · show -line.dy * p - line.dx * q + line.dx + line.dy + line.dy =
          -line.dy * (p - 1) - line.dx * q + line.dx + line.dy
        ring
    · rfl

/-- The directions are chosen so that the remaining ways end at the end of the line. -/
theorem Line.pen_start (x1 y1 x2 y2 : Int) :
    (Line.between x1 y1 x2 y2).pen |x2 - x1| |y2 - y1| =
      ⟨x1, y1, |x2 - x1| + -|y2 - y1|⟩ := by
  have way : ∀ a b : Int, b - (if a < b then 1 else -1) * |b - a| = a := by
    intro a b
    split
    case isTrue less =>
      rw [abs_of_pos (by omega)]
      omega
    case isFalse notLess =>
      rw [abs_of_nonpos (by omega)]
      omega
  apply Pen.ext
  · exact way x1 x2
  · exact way y1 y2
  · show - -|y2 - y1| * |x2 - x1| - |x2 - x1| * |y2 - y1| + |x2 - x1| + -|y2 - y1| =
      |x2 - x1| + -|y2 - y1|
    ring

/-! ### The size of the image -/

/-- There are three bytes for each pixel. -/
def Canvas.Sized (canvas : Canvas) : Prop :=
  (canvas.pixels.length : Int) = canvas.width * canvas.height * 3

theorem Canvas.setPixel_sized {canvas : Canvas} (sized : canvas.Sized) (x y : Int)
    (color : Color) : (canvas.setPixel x y color).Sized := by
  rw [setPixel]
  split
  case isTrue => exact sized
  case isFalse within =>
    have rows : (y + 1) * canvas.width ≤ canvas.height * canvas.width :=
      mul_le_mul_of_nonneg_right (by omega) (by omega)
    have above : 0 ≤ y * canvas.width := mul_nonneg (by omega) (by omega)
    have size : (canvas.pixels.length : Int) = canvas.width * canvas.height * 3 := sized
    rw [add_mul, one_mul, mul_comm canvas.height] at rows
    simp only [Sized, List.length_append, List.length_take, List.length_drop, List.length_cons,
      List.length_nil]
    omega

/-- However a line is drawn, the image keeps its size. -/
theorem Line.draw_sized (line : Line) (color : Color) (fuel : Nat) :
    ∀ pen canvas points image, line.draw color fuel pen canvas = some (points, image) →
      canvas.Sized → image.Sized := by
  induction fuel with
  | zero => exact fun _ _ _ _ drawn => (nomatch drawn)
  | succ fuel ih =>
      intro pen canvas points image drawn sized
      have next := Canvas.setPixel_sized sized pen.x1 pen.y1 color
      rw [draw] at drawn
      split at drawn
      case isTrue =>
        obtain ⟨-, rfl⟩ := Prod.ext_iff.mp (Option.some.inj drawn)
        exact next
      case isFalse =>
        obtain ⟨⟨others, last⟩, further, outcome⟩ := Option.map_eq_some_iff.mp drawn
        obtain ⟨-, rfl⟩ := Prod.ext_iff.mp outcome
        exact ih _ _ _ _ further next

/-! ### Connected lines -/

def Adjoining (a b : Point) : Prop := |b.1 - a.1| ≤ 1 ∧ |b.2 - a.2| ≤ 1

/-- The point is in the bounding box of the other two. -/
structure Boxed (start finish point : Point) : Prop where
  left : min start.1 finish.1 ≤ point.1
  right : point.1 ≤ max start.1 finish.1
  top : min start.2 finish.2 ≤ point.2
  bottom : point.2 ≤ max start.2 finish.2

structure ConnectedLine (start finish : Point) (points : List Point) : Prop where
  length : (points.length : Int) = max |finish.1 - start.1| |finish.2 - start.2| + 1
  starts : points.head? = some start
  arrives : points.getLast? = some finish
  adjoining : points.IsChain Adjoining
  boxed : ∀ point ∈ points, Boxed start finish point

theorem connectedLine_single (point : Point) : ConnectedLine point point [point] where
  length := by simp
  starts := rfl
  arrives := rfl
  adjoining := .singleton _
  boxed := by
    intro other member
    rw [List.mem_singleton.mp member]
    constructor <;> simp

/-- A point is put before a line. -/
theorem ConnectedLine.cons {start next finish : Point} {points : List Point}
    (rest : ConnectedLine next finish points) (step : Adjoining start next)
    (inside : Boxed start finish next)
    (nearer : max |finish.1 - next.1| |finish.2 - next.2| + 1 =
      max |finish.1 - start.1| |finish.2 - start.2|) :
    ConnectedLine start finish (start :: points) := by
  obtain ⟨point, points, rfl⟩ : ∃ point others, points = point :: others := by
    cases points with
    | nil => exact (nomatch rest.starts)
    | cons point others => exact ⟨point, others, rfl⟩
  obtain rfl : point = next := Option.some.inj rest.starts
  constructor
  · rw [List.length_cons, Nat.cast_add, rest.length, nearer, Nat.cast_one]
  · rfl
  · exact (List.getLast?_cons_cons ..).trans rest.arrives
  · exact .cons_cons step rest.adjoining
  · intro other member
    rcases List.mem_cons.mp member with rfl | later
    · constructor <;> simp
    · have near := rest.boxed other later
      constructor
      · exact (le_min inside.left (min_le_right _ _)).trans near.left
      · exact near.right.trans (max_le inside.right (le_max_right _ _))
      · exact (le_min inside.top (min_le_right _ _)).trans near.top
      · exact near.bottom.trans (max_le inside.bottom (le_max_right _ _))

/-! ### The whole line -/

theorem way_eq_zero {s left : Int} (unit : s = 1 ∨ s = -1) (finish : Int) :
    finish - s * left = finish ↔ left = 0 := by
  rcases unit with rfl | rfl <;> omega

theorem abs_way {s left : Int} (unit : s = 1 ∨ s = -1) (nonneg : 0 ≤ left) (finish : Int) :
    |finish - (finish - s * left)| = left := by
  rw [sub_sub_cancel]
  rcases unit with rfl | rfl
  · rw [one_mul, abs_of_nonneg nonneg]
  · rw [neg_one_mul, abs_neg, abs_of_nonneg nonneg]

/-- As less is left of its way, a coordinate stays between where it was and the end. -/
theorem way_between {s left rest : Int} (unit : s = 1 ∨ s = -1) (nonneg : 0 ≤ rest)
    (less : rest ≤ left) (finish : Int) :
    min (finish - s * left) finish ≤ finish - s * rest ∧
      finish - s * rest ≤ max (finish - s * left) finish := by
  rcases unit with rfl | rfl <;> omega

theorem way_adjoining {s left rest : Int} (unit : s = 1 ∨ s = -1) (least : left - 1 ≤ rest)
    (less : rest ≤ left) (finish : Int) :
    |finish - s * rest - (finish - s * left)| ≤ 1 := by
  rw [abs_le]
  rcases unit with rfl | rfl <;> omega

def Line.point (line : Line) (p q : Int) : Point := ((line.pen p q).x1, (line.pen p q).y1)

section Drawing

variable {line : Line} (directed : line.Directed)
include directed

theorem Line.arrived_iff (p q : Int) :
    ((line.pen p q).x1 = line.x2 ∧ (line.pen p q).y1 = line.y2) ↔ p = 0 ∧ q = 0 :=
  and_congr (way_eq_zero directed.alongX _) (way_eq_zero directed.alongY _)

/-- One round: a step to a point that adjoins and is nearer. -/
theorem Line.connectedLine_round {p q : Int} {points : List Point}
    (underway : Underway line.dx (-line.dy) p q) (left : 0 < max p q)
    (further : ConnectedLine
      (line.point (rest line.dx (-line.dy) p q) (rest (-line.dy) line.dx q p))
      (line.x2, line.y2) points) :
    ConnectedLine (line.point p q) (line.x2, line.y2) (line.point p q :: points) := by
  obtain ⟨next, nearer⟩ := underway.round left
  obtain ⟨leastX, lessX⟩ := rest_bounds line.dx (-line.dy) p q
  obtain ⟨leastY, lessY⟩ := rest_bounds (-line.dy) line.dx q p
  apply further.cons
  · exact ⟨way_adjoining directed.alongX leastX lessX _,
      way_adjoining directed.alongY leastY lessY _⟩
  · obtain ⟨leftward, rightward⟩ :=
      way_between directed.alongX next.left_nonneg.1 lessX line.x2
    obtain ⟨upward, downward⟩ := way_between directed.alongY next.left_nonneg.2 lessY line.y2
    exact ⟨leftward, rightward, upward, downward⟩
  · simp only [Line.point, Line.pen]
    rw [abs_way directed.alongX next.left_nonneg.1, abs_way directed.alongY next.left_nonneg.2,
      abs_way directed.alongX underway.left_nonneg.1,
      abs_way directed.alongY underway.left_nonneg.2, nearer, sub_add_cancel]

/-- The rounds that are left, by induction on their number. -/
theorem Line.draw_connected (color : Color) (n : Nat) :
    ∀ p q, Underway line.dx (-line.dy) p q → max p q = n →
      ∃ points, ConnectedLine (line.point p q) (line.x2, line.y2) points ∧
        ∀ fuel canvas, line.draw color fuel (line.pen p q) canvas =
          if points.length ≤ fuel then some (points, canvas.setPixels color points)
          else none := by
  induction n with
  | zero =>
      intro p q underway none
      obtain ⟨leftX, leftY⟩ := underway.left_nonneg
      obtain rfl : p = 0 := by omega
      obtain rfl : q = 0 := by omega
      have arrived : line.point 0 0 = (line.x2, line.y2) := by simp [Line.point, Line.pen]
      refine ⟨[line.point 0 0], arrived ▸ connectedLine_single _, ?_⟩
      intro fuel canvas
      cases fuel with
      | zero => rfl
      | succ fuel =>
          rw [Line.draw, if_pos ((line.arrived_iff directed 0 0).mpr ⟨rfl, rfl⟩),
            if_pos (by simp)]
          rfl
  | succ n ih =>
      intro p q underway some
      have left : 0 < max p q := by omega
      obtain ⟨next, nearer⟩ := underway.round left
      obtain ⟨points, connected, drawn⟩ := ih _ _ next (by omega)
      refine ⟨line.point p q :: points, line.connectedLine_round directed underway left connected,
        ?_⟩
      intro fuel canvas
      cases fuel with
      | zero => rfl
      | succ fuel =>
          have far : ¬(p = 0 ∧ q = 0) := by omega
          rw [Line.draw, if_neg (mt (line.arrived_iff directed p q).mp far), line.move_pen, drawn]
          by_cases enough : points.length ≤ fuel
          · rw [if_pos enough, if_pos (by simpa using enough)]
            rfl
          · rw [if_neg enough, if_neg (by simpa using enough)]
            rfl

end Drawing

/-- The loop ends after exactly as many rounds as the line has points, and these are a connected
line between its ends. -/
theorem drawLine_connected (canvas : Canvas) (x1 y1 x2 y2 : Int) (color : Color) :
    ∃ points, ConnectedLine (x1, y1) (x2, y2) points ∧
      ∀ fuel, drawLine fuel canvas x1 y1 x2 y2 color =
        if points.length ≤ fuel then some (points, canvas.setPixels color points) else none := by
  have start := Line.pen_start x1 y1 x2 y2
  have underway := underway_start |x2 - x1| |y2 - y1| (abs_nonneg _) (abs_nonneg _)
  have place : (Line.between x1 y1 x2 y2).point |x2 - x1| |y2 - y1| = (x1, y1) :=
    Prod.ext (congrArg Pen.x1 start) (congrArg Pen.y1 start)
  have nonneg : 0 ≤ max |x2 - x1| |y2 - y1| := (abs_nonneg _).trans (le_max_left _ _)
  obtain ⟨n, rounds⟩ := Int.eq_ofNat_of_zero_le nonneg
  obtain ⟨points, connected, drawn⟩ :=
    (Line.between x1 y1 x2 y2).draw_connected (Line.between_directed ..) color n _ _
      (by simpa only [Line.between, neg_neg] using underway) rounds
  rw [place] at connected
  rw [start] at drawn
  exact ⟨points, connected, fun fuel => drawn fuel canvas⟩

end AcojWorker.Captcha
