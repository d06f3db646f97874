import ImageViews.View.Evaluate

/-!
# Sessions

A session asks queries of a view and of the views that prerasterizing it gives, in any order. Each
view that was opened keeps its own kernels from one query to the next; the log is common to all.
-/
namespace ImageViews

inductive Move
  | nextCol
  | nextRow
  | nextPlane
  | advance (dx dy dp : Int)

def Addressing.move (a : Addressing) (place : a.Place) : Move → Check a.Place
  | .nextCol => a.nextCol place
  | .nextRow => a.nextRow place
  | .nextPlane => a.nextPlane place
  | .advance dx dy dp => a.advance place dx dy dp

variable {A : Arithmetic} {p : A.Pixel} {α μ : Type}

/-- The pixel at which a cursor arrives that starts at the first one. -/
def Sampler.cursor {σ : Type} (s : Sampler σ α) (moves : List Move) : Probe σ α := do
  let start ← s.origin
  let place ← (moves.foldlM s.addressing.move start : Check s.addressing.Place)
  s.read place

def View.cursor (v : View A p) (moves : List Move) : Probe (Trail v.Memo) (A.Value p) :=
  v.sampler.cursor moves

/-- What a view can be asked. A query for a box that is painted brings its destination. -/
inductive Query (A : Arithmetic) (p : A.Pixel)
  | get (x y : Int) (plane : Nat)
  | pixel (border : Border) (x y : Int) (plane : Nat)
  | cursor (moves : List Move)
  | kernel
  /-- A box, one point access after the other. -/
  | paint {n : Nat} (handle : Handle n) (cells : Vector (A.Value p) n) (box : Box)
  | rasterize {n : Nat} (handle : Handle n) (cells : Vector (A.Value p) n) (box : Box)
  | toImage
  | region (box : Box)
  | extendedRegion (border : Border) (box : Box)
  | prerasterize (box : Box)

/-- Whether a query goes through the tiler of the view. -/
def Query.tiled : Query A p → Bool
  | get .. | pixel .. | cursor _ | kernel | paint .. => false
  | rasterize .. | toImage | region _ | extendedRegion .. | prerasterize _ => true

inductive Answer (A : Arithmetic) (p : A.Pixel)
  | pixel (outcome : Check (A.Value p))
  | kernel (outcome : Option (Σ k : A.Coeff, Check (Kernel (A.Factor k))))
  | cells {n : Nat} (outcome : Except Failure Unit) (cells : Vector (A.Value p) n)
  | image (outcome : Except Failure (Image (A.Value p)))
  | view (outcome : Except Failure (View A p))

def Probe.reply (answer : Check α → Answer A p) (probe : Probe (Trail μ) α) (trail : Trail μ) :
    Answer A p × Trail μ :=
  let (outcome, trail) := probe.run.run trail
  (answer outcome, trail)

/-- The answer of an evaluation that leaves the kernels alone. -/
def Render.reply (answer : Except Failure α → Answer A p) (render : Render α) (trail : Trail μ) :
    Answer A p × Trail μ :=
  let (outcome, log) := render.run.run trail.log
  (answer outcome, { trail with log })

namespace View

def ask (v : View A p) : Query A p → Trail v.Memo → Answer A p × Trail v.Memo
  | .get x y plane, trail => (v.get x y plane).reply .pixel trail
  | .pixel border x y plane, trail => (v.pixel border x y plane).reply .pixel trail
  | .cursor moves, trail => (v.cursor moves).reply .pixel trail
  | .kernel, trail =>
    match v.outerKernel? with
    | none => (.kernel none, trail)
    | some ⟨k, kernel⟩ => kernel.reply (fun outcome => .kernel (some ⟨k, outcome⟩)) trail
  | .paint handle cells box, trail =>
    let (outcome, cells, trail) := (v.paint handle box).run.run (cells, trail)
    (.cells outcome cells, trail)
  | .rasterize handle cells box, trail =>
    let (outcome, cells, log) := (v.rasterize handle box).run.run (cells, trail.log)
    (.cells outcome cells, { trail with log })
  | .toImage, trail => v.toImage.reply .image trail
  | .region box, trail => (v.region box).reply .image trail
  | .extendedRegion border box, trail => (v.extendedRegion border box).reply .image trail
  | .prerasterize box, trail => (v.prerasterize box).reply .view trail

/-- The answer of the view and what it leaves behind when nothing was asked before. -/
def askFresh (v : View A p) (query : Query A p) : Answer A p × Trail v.Memo :=
  v.ask query { memo := Memo.empty v }

end View

structure Opened (A : Arithmetic) (p : A.Pixel) where
  view : View A p
  memo : view.Memo

def Opened.fresh (v : View A p) : Opened A p := { view := v, memo := View.Memo.empty v }

def Answer.opens : Answer A p → List (Opened A p)
  | view (.ok v) => [.fresh v]
  | view (.error _) | pixel _ | kernel _ | cells .. | image _ => []

/-- The views that were opened, the oldest first, and the common log. -/
structure Session (A : Arithmetic) (p : A.Pixel) where
  opened : List (Opened A p)
  log : Log

namespace Session

/-- The session of a view that nothing was asked of. -/
def start (v : View A p) : Session A p := { opened := [.fresh v], log := [] }

/-- What is asked of one of the views. Prerasterizing opens another one. -/
def step (s : Session A p) (request : Nat × Query A p) : Session A p :=
  match s.opened[request.1]? with
  | none => s
  | some { view, memo } =>
    let (answer, trail) := view.ask request.2 { memo, log := s.log }
    { opened := s.opened.set request.1 { view, memo := trail.memo } ++ answer.opens
      log := trail.log }

def run (s : Session A p) (requests : List (Nat × Query A p)) : Session A p :=
  requests.foldl step s

end Session

end ImageViews
