import MiniBox.Block.Runs

/-!
# Opening and closing an epoch

An epoch answers what one frame changed.  Opening it forgets the last one, copies
every hot page to its shadow and protects again the pages that are mapped
writable.  Those are the pages of `unheld_bits`, taken from the bitmap before any
of them is refreshed, so the loop goes over the bits as it found them.
-/

namespace MiniBox

open Lib

def Block.epochForget (b : Block) : Block :=
  let b := b.onPages 0 b.npages fun _ => epochClearPage
  { b with shared := { b.shared with epochNdirty := 0, epochNstat := 0 } }

def Block.epochClear (b : Block) : Block := { b.epochForget with epochActive := false }

/-- A hot page's shadow is the page as the epoch opened. -/
def shadowNow (x : Track) : Track :=
  if x.page.hotBit then { x with page := { x.page with shadow := some x.page.mem } } else x

/-- A page mapped writable is held from here until its next write. -/
def holdPage (x : Track) : Track :=
  if x.page.epochTracks then { x with page := { x.page with held := true } } else x

/-- The bits of `unheld_bits` are taken and cleared. -/
def takeUnheld (x : Track) : Track := { x with page := { x.page with unheldBit := false } }

/-- The next epoch, with nothing in it. -/
def Block.epochOpen (b : Block) : Block :=
  { b.epochForget with epochActive := true, epochNo := b.epochNo + 1 }

/-- Every hot page copied to its shadow. -/
def Block.shadowHot (b : Block) : Block := b.onPages 0 b.npages fun _ => shadowNow

/-- Every page mapped writable protected again, in runs. -/
def Block.holdUnheld (b : Block) : Block :=
  let unheld (i : Nat) := (b.page i).unheldBit
  let s : Pending := ⟨b.onPages 0 b.npages fun _ => takeUnheld, none⟩
  (forRange 0 b.npages
    (fun (s : Pending) i => if unheld i then (s.onPage i holdPage).note i else s) s).close

def Block.epochBegin (b : Block) : Except Errno Unit × Block :=
  if !b.isSealed then (.error .einval, b)
  else (.ok (), b.epochOpen.shadowHot.holdUnheld)

end MiniBox
