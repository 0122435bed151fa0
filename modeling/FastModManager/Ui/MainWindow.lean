import FastModManager.Application.CatalogInventoryService
import FastModManager.Ui.InventoryModel

namespace FastModManager.Ui

open Domain Application Infrastructure

structure ProgressOverlayWidget (qt : QtText) where
  hidden : Bool
  value : Int
  status : qt.QString

namespace ProgressOverlayWidget

variable {qt : QtText}

def create : ProgressOverlayWidget qt := ⟨false, 0, InventoryModel.literal qt "Ready"⟩

/-- A `QProgressBar` keeps its value where the new one is out of its range. -/
def setProgress (overlay : ProgressOverlayWidget qt) (percentage : Int) (message : qt.QString) :
    ProgressOverlayWidget qt :=
  { overlay with
    value := if 0 ≤ percentage ∧ percentage ≤ 100 then percentage else overlay.value
    status := message }

def resetState (overlay : ProgressOverlayWidget qt) : ProgressOverlayWidget qt :=
  { overlay with value := 0, status := InventoryModel.literal qt "Ready" }

def hideOverlay (overlay : ProgressOverlayWidget qt) : ProgressOverlayWidget qt :=
  { overlay with hidden := true }

def showOverlay (overlay : ProgressOverlayWidget qt) : ProgressOverlayWidget qt :=
  { overlay with hidden := false }

end ProgressOverlayWidget

namespace MainWindow

structure State (qt : QtText) where
  model : InventoryModel.State qt
  overlay : ProgressOverlayWidget qt

variable {qt : QtText}

def onScanProgress (overlay : ProgressOverlayWidget qt) (percentage : Int) (message : qt.QString) :
    ProgressOverlayWidget qt :=
  (if overlay.hidden then overlay.showOverlay else overlay).setProgress percentage message

def onScanCompleted (overlay : ProgressOverlayWidget qt) : ProgressOverlayWidget qt :=
  overlay.hideOverlay.resetState

/-- The message box that follows delivers queued events as the idle window does. -/
def onScanFailed (overlay : ProgressOverlayWidget qt) (_ : qt.QString) :
    ProgressOverlayWidget qt :=
  overlay.hideOverlay.resetState

def onCancelClicked (overlay : ProgressOverlayWidget qt) : ProgressOverlayWidget qt :=
  overlay.hideOverlay.resetState

def receive (overlay : ProgressOverlayWidget qt) : InventoryModel.Signal qt →
    ProgressOverlayWidget qt
  | .scanProgress percentage message => onScanProgress overlay percentage message
  | .scanCompleted => onScanCompleted overlay
  | .scanFailed error => onScanFailed overlay error

def returnsToClick (state : InventoryModel.State qt) : InventoryModel.Action → Bool
  | .cancelReload => state.loadTask.isNone
  | .joined =>
    match state.uiThread with
    | .joining _ .return => true
    | _ => false
  | .reload | .deliver | .progress _ _ _ | .worker _ _ => false

/-- A step of the model with the slots that it runs. A `cancelReload` is a click on the button. -/
def step (state : State qt) (action : InventoryModel.Action) :
    Option (List (InventoryModel.Signal qt) × State qt) := do
  let (signals, model) ← InventoryModel.step state.model action
  let overlay := signals.foldl receive state.overlay
  return (signals,
    ⟨model, if returnsToClick state.model action then onCancelClicked overlay else overlay⟩)

def construct : State qt where
  model := (InventoryModel.State.initial.cancelReload .startTask).2
  overlay := ProgressOverlayWidget.create.hideOverlay

end MainWindow

end FastModManager.Ui
