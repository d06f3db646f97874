import ImageViews.Pixel.Cast
import ImageViews.Pixel.Masked
import ImageViews.Proofs.Agreement
import ImageViews.Proofs.Consistency
import ImageViews.Proofs.Eager
import ImageViews.Proofs.Editing
import ImageViews.Proofs.Masking
import ImageViews.Proofs.Planes
import ImageViews.Proofs.PointSums
import ImageViews.Proofs.Points
import ImageViews.Proofs.Refusals
import ImageViews.Proofs.Separable
import ImageViews.Proofs.Sessions
import ImageViews.Proofs.Sources
import ImageViews.Proofs.Tiling
import ImageViews.View.Filter
import ImageViews.View.Session
import ImageViews.Image.Editing
import ImageViews.Proofs.Tables
import ImageViews.Proofs.Unfolding
import ImageViews.Proofs.Dense
import ImageViews.Proofs.FarBoxes
import ImageViews.Proofs.Giving
import ImageViews.Proofs.Magnitudes
import ImageViews.Proofs.Construction
import ImageViews.Proofs.PixelSets
import ImageViews.Proofs.Walks
import ImageViews.Proofs.Cutting
