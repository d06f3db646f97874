import ImageViews.Handle

/-!
# Rendering

Rendering evaluates whole images. It may be refused or fault, and it leaves records in either
case. A new image is rendered by painting through the handle of a blank one.
-/
namespace ImageViews

abbrev Render := ExceptT Failure (StateM Log)

variable {α : Type} {n : Nat}

instance {m : Type → Type} [Monad m] : MonadLift (Except ImageError) (ExceptT Failure m) where
  monadLift result := ExceptT.mk (pure (result.mapError .error))

/-- Rendering another image while painting leaves the cells alone. -/
instance : MonadLift Render (Paint Log α n) where
  monadLift render := ExceptT.mk fun (cells, log) =>
    let (result, log) := render.run.run log
    (result, (cells, log))

def Paint.record (record : Record) : Paint Log α n Unit :=
  modifyThe (Vector α n × Log) fun (cells, log) => (cells, log ++ [record])

/-- Paints into a buffer of its own, and gives the cells back. -/
def Paint.onto (paint : Paint Log α n Unit) (cells : Vector α n) : Render (Vector α n) :=
  ExceptT.mk fun log =>
    let (result, (cells, log)) := paint.run.run (cells, log)
    (result.map fun _ => cells, log)

/-- The image that `paint` makes of a blank one. -/
def Image.render (storage : Storage α) (cols rows planes : Nat)
    (paint : Handle (cols * rows * planes) → Paint Log α (cols * rows * planes) Unit) :
    Render (Image α) := do
  Image.allocate storage.bytes cols rows planes
  let whole ← Handle.whole (cols * rows * planes) cols rows planes
  let cells ← (paint whole).onto (Vector.replicate _ storage.blank)
  return .ofVector cells

end ImageViews
