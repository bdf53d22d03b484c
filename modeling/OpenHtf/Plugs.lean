import OpenHtf.World

/-!
# The plugs of a run

`plugs.PlugManager`, as far as the executor uses it.
-/

set_option autoImplicit false

namespace OpenHtf

def PlugCls.isPlaceholder : PlugCls → Bool
  | .placeholder _ => true
  | .plug _ => false

namespace PlugManager

def hasType (m : PlugManager) (t : PlugType) : Bool := m.plugsByType.any fun item ↦ item.1 == t.id

/-- The plug classes are the items of a set, which `update_plug` adds to. -/
def updatePlug (t : PlugType) (instance_ : PlugInstance) (m : PlugManager) : PlugManager where
  plugTypes :=
    if m.plugTypes.any (fun c ↦ match c with | .plug t' => t'.id == t.id | .placeholder _ => false)
    then m.plugTypes else m.plugTypes ++ [.plug t]
  plugsByType := dictSet t.id instance_ m.plugsByType
  plugsByName := dictSet t.name instance_ m.plugsByName

def clear (m : PlugManager) : PlugManager := { m with plugsByType := [], plugsByName := [] }

end PlugManager

def mapPlugManager (f : PlugManager → PlugManager) : Exec Unit :=
  Act.modify (RunState.mapTestState fun t ↦ { t with plugManager := f t.plugManager })

/-- What the `try` of `initialize_plugs` does with one class. -/
def constructPlug (t : PlugType) : Exec PlugInstance := do
  if !t.isBasePlug then
    Act.raise (.ofClass .InvalidPlugError
      s!"Plug type {t.name} is not an instance of base_plugs.BasePlug")
  else if t.overridesLogger then
    Act.raise (.ofClass .InvalidPlugError "Do not override logger in your plugs.")
  else
    let object ← Act.gets (·.moment)
    match ← callUser t.init with
    | .raised e =>
      noteStep (.raised e)
      Act.raise e
    | .made setsLogger =>
      noteStep (.plugConstructed ⟨object, t.id⟩ setsLogger)
      if setsLogger then
        Act.raise (.ofClass .InvalidPlugError "Do not set self.logger in __init__ in your plugs")
      else pure ⟨object, t.id⟩

/-- Each `tearDown` runs in a thread of its own that raises nothing here. -/
def tearDownPlugList : List (ℕ × PlugInstance) → Exec Unit
  | [] => pure ()
  | (_, plug) :: rest => do
    noteStep (.plugTornDown plug)
    tearDownPlugList rest

def tearDownPlugs : Exec Unit := do
  tearDownPlugList (← Act.gets (·.testState.plugManager.plugsByType))
  mapPlugManager .clear

/-- One round of the loop of `PlugManager.initialize_plugs`.  A placeholder has
no `__name__`, and the logger's name is made of that before the `try`. -/
def initializePlug : PlugCls → Exec Unit
  | .placeholder _ =>
    Act.raise (.ofClass .AttributeError "'PlugPlaceholder' object has no attribute '__name__'")
  | .plug t => do
    if ← Act.gets (·.testState.plugManager.hasType t) then pure ()
    else
      let plug ← exceptException (constructPlug t) fun e ↦ do
        tearDownPlugs
        Act.raise e
      mapPlugManager (.updatePlug t plug)

def initializePlugList : List PlugCls → Exec Unit
  | [] => pure ()
  | c :: cs => do
    initializePlug c
    initializePlugList cs

/-- `PlugManager.initialize_plugs`. -/
def initializePlugTypes (plugTypes : Option (List PlugCls)) : Exec Unit := do
  let own ← Act.gets (·.testState.plugManager.plugTypes)
  initializePlugList (plugTypes.getD own)

end OpenHtf
