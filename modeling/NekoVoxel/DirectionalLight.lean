import NekoVoxel.NodeRounding

/-!
The directional light of the dynamic shadows (`DirectionalLight` in part_000): a double buffer
of shadow frustums. `update_frustum` computes a pending `future_frustum` and sets `dirty`;
`commitFrustum` shows it as `shadow_frustum`. While the light is dirty, an update that is not
forced does nothing. When the camera offset changes, the shown frustum's view matrix and
player position are moved so that what it shows of the world stays where it was.

Floating point is exact rational arithmetic. What `createSplitMatrices` computes with square
roots and trigonometry (the bounding-sphere radius, the quantised light direction, Irrlicht's
matrix builders) and the bodies the sources lack (`adjustDist`, `getMaxFarValue`, `BS`) are
parameters; the buffer protocol does not depend on them.

`ShadowBuffer` says what the light is for: a shown and at most one pending frustum, as the world
sees them. Read through `DirectionalLight.buffer`, every run of calls on the light is a run of
the buffer; the consistency of the two frustums holds along every run.
-/
namespace NekoVoxel

/-- Irrlicht's `core::matrix4`: sixteen entries, column-major, translation in entries 12-14. -/
structure m4f where
  M : Fin 16 → ℚ

namespace m4f

def getTranslation (m : m4f) : V3 ℚ := ⟨m.M 12, m.M 13, m.M 14⟩

def setTranslation (m : m4f) (t : V3 ℚ) : m4f :=
  ⟨fun i => if i = 12 then t.X else if i = 13 then t.Y else if i = 14 then t.Z else m.M i⟩

def rotateVect (m : m4f) (v : V3 ℚ) : V3 ℚ :=
  ⟨v.X * m.M 0 + v.Y * m.M 4 + v.Z * m.M 8, v.X * m.M 1 + v.Y * m.M 5 + v.Z * m.M 9,
    v.X * m.M 2 + v.Y * m.M 6 + v.Z * m.M 10⟩

def transformVect (m : m4f) (v : V3 ℚ) : V3 ℚ := m.rotateVect v + m.getTranslation

@[simp] theorem rotateVect_setTranslation (m : m4f) (t v : V3 ℚ) :
    (m.setTranslation t).rotateVect v = m.rotateVect v := by
  simp [rotateVect, setTranslation]

@[simp] theorem getTranslation_setTranslation (m : m4f) (t : V3 ℚ) :
    (m.setTranslation t).getTranslation = t := by
  simp [getTranslation, setTranslation]

theorem transformVect_shift (m : m4f) (d p : V3 ℚ) :
    (m.setTranslation (m.getTranslation + m.rotateVect d)).transformVect p =
      m.transformVect (p + d) := by
  simp only [transformVect, rotateVect_setTranslation, getTranslation_setTranslation]
  simp only [rotateVect, getTranslation, V3.add_def, V3.mk.injEq]
  refine ⟨?_, ?_, ?_⟩ <;> ring

end m4f

structure shadowFrustum where
  zNear : ℚ
  zFar : ℚ
  length : ℚ
  radius : ℚ
  position : V3 ℚ
  player : V3 ℚ
  ViewMat : m4f
  ProjOrthMat : m4f
  camera_offset : V3 Int

structure Camera where
  direction : V3 ℚ
  position : V3 ℚ
  offset : V3 Int
  nearValue : ℚ
  fovX : ℚ
  fovY : ℚ
  upVector : V3 ℚ

structure MapDrawControl where
  range_all : Bool
  wanted_range : ℚ

/-- The parts of `createSplitMatrices` that exact rationals cannot compute, or whose bodies the
    sources lack. -/
structure SplitGeometry where
  /-- `adjustDist(dist, zoom_fov)`, declared in numeric.h without a body. -/
  adjustDist : Int → ℚ → Int
  /-- The length of `boundVec`, from the camera, `look`, `cam_pos_scene`, `center_scene` and
      `sfFar` (the far corner is a normalised vector). -/
  boundRadius : Camera → V3 ℚ → V3 ℚ → V3 ℚ → ℚ → ℚ
  /-- `quantizeDirection(direction, M_PI / 2880)`, by `atan2`, `asin`, `cos` and `sin`. -/
  quantizeDirection : V3 ℚ → V3 ℚ
  /-- `buildCameraLookAtMatrixLH(eye, center, (0, 1, 0))`. -/
  buildCameraLookAtMatrixLH : V3 ℚ → V3 ℚ → m4f
  /-- `buildProjectionMatrixOrthoLH(radius, radius, 0, length, false)`. -/
  buildProjectionMatrixOrthoLH : ℚ → ℚ → m4f

structure DirectionalLight where
  direction : V3 ℚ
  last_look : V3 ℚ
  last_cam_pos_world : V3 ℚ
  shadow_frustum : shadowFrustum
  future_frustum : shadowFrustum
  dirty : Bool
  should_update_map_shadow : Bool

structure WorldFrustum where
  zNear : ℚ
  zFar : ℚ
  length : ℚ
  radius : ℚ
  position : V3 ℚ
  player : V3 ℚ
  view : V3 ℚ → V3 ℚ
  ProjOrthMat : m4f

/-- What the light is for: a shown frustum and at most one pending frustum. An update that is
    not forced keeps a pending frustum; a commit shows the pending frustum. -/
structure ShadowBuffer where
  shown : WorldFrustum
  pending : Option WorldFrustum

inductive BufferCall where
  | update (computed : WorldFrustum) (force : Bool)
  | commit

def BufferCall.step : BufferCall → ShadowBuffer → ShadowBuffer
  | .update computed force, b => if b.pending.isSome && !force then b else ⟨b.shown, some computed⟩
  | .commit, ⟨shown, pending⟩ => ⟨pending.getD shown, none⟩

def BufferCall.run : List BufferCall → ShadowBuffer → ShadowBuffer
  | [], b => b
  | c :: cs, b => run cs (c.step b)

inductive LightCall where
  | update (cam : Camera) (control : MapDrawControl) (force : Bool)
  | commit

def dotProduct (a b : V3 ℚ) : ℚ := a.X * b.X + a.Y * b.Y + a.Z * b.Z

def getDistanceFromSQ (a b : V3 ℚ) : ℚ := dotProduct (a - b) (a - b)

/-- The `float` constant `0.965926f` the `double` dot product is compared with. -/
def COS_15_DEG : ℚ := 16205549 / 2^24

section Light
variable (BS : ℚ) (geom : SplitGeometry) (getMaxFarValue : ℚ)

/-- The frustum `createSplitMatrices` builds once it has settled on `look` and `cam_pos_world`.
    `sfFar` is `adjustDist` of `zFar` converted to `s32`: undefined (`none`) out of range. -/
def splitFrustum (cam : Camera) (direction look cam_pos_world : V3 ℚ) (f : shadowFrustum) :
    Option shadowFrustum := do
  let sfNear := f.zNear
  let zFar ← convertToInt 32 f.zFar
  let sfFar : ℚ := geom.adjustDist zFar cam.fovY
  let cam_pos_scene := cam_pos_world - intToFloat cam.offset BS + look * sfNear
  let center_scene := cam_pos_scene + look * (0.35 : ℚ) * (sfFar - sfNear)
  let center_world := cam_pos_world + look * sfNear + look * (0.35 : ℚ) * (sfFar - sfNear)
  let radius := geom.boundRadius cam look cam_pos_scene center_scene sfFar
  let length := radius * 3
  let eye_displacement := geom.quantizeDirection direction * length
  let eye := center_scene - eye_displacement
  pure { f with
    player := cam_pos_scene
    position := center_world - eye_displacement
    length := length
    radius := radius
    ViewMat := geom.buildCameraLookAtMatrixLH eye center_scene
    ProjOrthMat := geom.buildProjectionMatrixOrthoLH radius length
    camera_offset := cam.offset }

/-- The look direction and camera position stick to the captured ones while within 15 degrees
    and one block of them; otherwise they are captured anew. -/
def createSplitMatrices (cam : Camera) (l : DirectionalLight) : Option DirectionalLight := do
  let look := if dotProduct cam.direction l.last_look ≥ COS_15_DEG then l.last_look
    else cam.direction
  let cam_pos_world := if getDistanceFromSQ cam.position l.last_cam_pos_world < BS * BS
    then l.last_cam_pos_world else cam.position
  let future ← splitFrustum BS geom cam l.direction look cam_pos_world l.future_frustum
  pure { l with last_look := look, last_cam_pos_world := cam_pos_world, future_frustum := future }

def moveCameraOffset (cam_offset : V3 Int) (f : shadowFrustum) : shadowFrustum :=
  let rotated_offset := f.ViewMat.rotateVect (intToFloat (cam_offset - f.camera_offset) BS)
  { f with
    ViewMat := f.ViewMat.setTranslation (f.ViewMat.getTranslation + rotated_offset)
    player := f.player + intToFloat (f.camera_offset - cam_offset) BS
    camera_offset := cam_offset }

def farValue (control : MapDrawControl) : ℚ :=
  if !control.range_all then min getMaxFarValue (control.wanted_range * BS) else getMaxFarValue

def updateSplits (cam : Camera) (control : MapDrawControl) (l : DirectionalLight) :
    DirectionalLight :=
  { l with future_frustum :=
      { l.future_frustum with zNear := cam.nearValue, zFar := farValue BS getMaxFarValue control } }

def adjustShadowOffset (cam_offset : V3 Int) (l : DirectionalLight) : DirectionalLight :=
  if cam_offset ≠ l.shadow_frustum.camera_offset then
    { l with shadow_frustum := moveCameraOffset BS cam_offset l.shadow_frustum }
  else l

def update_frustum (cam : Camera) (control : MapDrawControl) (force : Bool)
    (l : DirectionalLight) : Option DirectionalLight :=
  if l.dirty && !force then some l else do
  let l ← createSplitMatrices BS geom cam (updateSplits BS getMaxFarValue cam control l)
  pure (adjustShadowOffset BS cam.offset { l with should_update_map_shadow := true, dirty := true })

def commitFrustum (l : DirectionalLight) : DirectionalLight :=
  if !l.dirty then l else { l with shadow_frustum := l.future_frustum, dirty := false }

@[simp] theorem adjustShadowOffset_dirty (cam_offset : V3 Int) (l : DirectionalLight) :
    (adjustShadowOffset BS cam_offset l).dirty = l.dirty := by
  unfold adjustShadowOffset; split <;> rfl

@[simp] theorem adjustShadowOffset_future_frustum (cam_offset : V3 Int) (l : DirectionalLight) :
    (adjustShadowOffset BS cam_offset l).future_frustum = l.future_frustum := by
  unfold adjustShadowOffset; split <;> rfl

theorem adjustShadowOffset_shadow_frustum (cam_offset : V3 Int) (l : DirectionalLight) :
    (adjustShadowOffset BS cam_offset l).shadow_frustum =
      if cam_offset ≠ l.shadow_frustum.camera_offset
      then moveCameraOffset BS cam_offset l.shadow_frustum else l.shadow_frustum := by
  unfold adjustShadowOffset; split <;> rfl

theorem adjustShadowOffset_captured (cam_offset : V3 Int) (l : DirectionalLight) :
    (adjustShadowOffset BS cam_offset l).last_look = l.last_look ∧
      (adjustShadowOffset BS cam_offset l).last_cam_pos_world = l.last_cam_pos_world ∧
      (adjustShadowOffset BS cam_offset l).direction = l.direction := by
  unfold adjustShadowOffset; split <;> exact ⟨rfl, rfl, rfl⟩

theorem splitFrustum_camera_offset {cam : Camera} {direction look cam_pos_world : V3 ℚ}
    {f f' : shadowFrustum} (split : splitFrustum BS geom cam direction look cam_pos_world f = some f') :
    f'.camera_offset = cam.offset := by
  simp only [splitFrustum, Option.bind_eq_bind, Option.bind_eq_some, Option.pure_def,
    Option.some.injEq] at split
  obtain ⟨_, _, rfl⟩ := split
  rfl

theorem splitFrustum_isSome (cam : Camera) (direction look cam_pos_world : V3 ℚ)
    (f : shadowFrustum) :
    (splitFrustum BS geom cam direction look cam_pos_world f).isSome =
      (convertToInt 32 f.zFar).isSome := by
  unfold splitFrustum
  cases convertToInt 32 f.zFar <;> rfl

theorem update_frustum_of_runs (cam : Camera) (control : MapDrawControl) {force : Bool}
    {l : DirectionalLight} (runs : (l.dirty && !force) = false) :
    let look := if dotProduct cam.direction l.last_look ≥ COS_15_DEG then l.last_look
      else cam.direction
    let cam_pos_world := if getDistanceFromSQ cam.position l.last_cam_pos_world < BS * BS
      then l.last_cam_pos_world else cam.position
    update_frustum BS geom getMaxFarValue cam control force l =
      (splitFrustum BS geom cam l.direction look cam_pos_world
        (updateSplits BS getMaxFarValue cam control l).future_frustum).map fun future =>
          adjustShadowOffset BS cam.offset
            { l with
              last_look := look, last_cam_pos_world := cam_pos_world, future_frustum := future,
              should_update_map_shadow := true, dirty := true } := by
  intro look cam_pos_world
  simp only [update_frustum, runs, createSplitMatrices, updateSplits, Option.bind_eq_bind,
    Option.pure_def, Option.bind_assoc, Option.some_bind, Option.map_eq_bind, if_false,
    Bool.false_eq_true]
  rfl

theorem update_frustum_cases (cam : Camera) (control : MapDrawControl) (force : Bool)
    {l l' : DirectionalLight} (stepped : update_frustum BS geom getMaxFarValue cam control force l = some l') :
    (l.dirty && !force) = true ∧ l' = l ∨
      (l.dirty && !force) = false ∧ l'.dirty = true ∧
      l'.future_frustum.camera_offset = cam.offset ∧
      l'.shadow_frustum = (if cam.offset ≠ l.shadow_frustum.camera_offset
        then moveCameraOffset BS cam.offset l.shadow_frustum else l.shadow_frustum) ∧
      l'.direction = l.direction := by
  cases skip : (l.dirty && !force)
  · rw [update_frustum_of_runs BS geom getMaxFarValue cam control skip] at stepped
    obtain ⟨future, split, rfl⟩ := Option.map_eq_some'.mp stepped
    refine .inr ⟨rfl, by simp, ?_, adjustShadowOffset_shadow_frustum BS _ _,
      (adjustShadowOffset_captured BS _ _).2.2⟩
    rw [adjustShadowOffset_future_frustum]
    exact splitFrustum_camera_offset BS geom split
  · simp only [update_frustum, skip, if_true, Option.some.injEq] at stepped
    exact .inl ⟨rfl, stepped.symm⟩

theorem update_frustum_isSome (cam : Camera) {control : MapDrawControl} (force : Bool)
    (l : DirectionalLight) (fits : (convertToInt 32 (farValue BS getMaxFarValue control)).isSome) :
    (update_frustum BS geom getMaxFarValue cam control force l).isSome := by
  cases skip : (l.dirty && !force)
  · rw [update_frustum_of_runs BS geom getMaxFarValue cam control skip, Option.isSome_map',
      splitFrustum_isSome]
    exact fits
  · simp [update_frustum, skip]

/-- The view matrix applies to scene positions, a world position less the camera offset in
    nodes; `position` is already a world position. -/
def shadowFrustum.world (f : shadowFrustum) : WorldFrustum where
  zNear := f.zNear
  zFar := f.zFar
  length := f.length
  radius := f.radius
  position := f.position
  player := f.player + intToFloat f.camera_offset BS
  view := fun w => f.ViewMat.transformVect (w - intToFloat f.camera_offset BS)
  ProjOrthMat := f.ProjOrthMat

theorem moveCameraOffset_world (cam_offset : V3 Int) (f : shadowFrustum) :
    (moveCameraOffset BS cam_offset f).world BS = f.world BS := by
  simp only [shadowFrustum.world, moveCameraOffset, m4f.transformVect_shift, WorldFrustum.mk.injEq,
    true_and, and_true]
  constructor
  · simp only [intToFloat, V3.add_def, V3.sub_def, Int.cast_sub, V3.mk.injEq]
    refine ⟨?_, ?_, ?_⟩ <;> ring
  · funext w
    congr 1
    simp only [intToFloat, V3.add_def, V3.sub_def, Int.cast_sub, V3.mk.injEq]
    refine ⟨?_, ?_, ?_⟩ <;> ring

theorem update_frustum_shadow_world (cam : Camera) (control : MapDrawControl) (force : Bool)
    {l l' : DirectionalLight} (stepped : update_frustum BS geom getMaxFarValue cam control force l = some l') :
    l'.shadow_frustum.world BS = l.shadow_frustum.world BS := by
  rcases update_frustum_cases BS geom getMaxFarValue cam control force stepped with
    ⟨-, rfl⟩ | ⟨-, -, -, shown, -⟩
  · rfl
  · rw [shown]
    split
    · exact moveCameraOffset_world BS cam.offset l.shadow_frustum
    · rfl

theorem commitFrustum_of_clean {l : DirectionalLight} (clean : l.dirty = false) :
    commitFrustum l = l := by
  simp [commitFrustum, clean]

theorem commitFrustum_of_dirty {l : DirectionalLight} (dirty : l.dirty = true) :
    commitFrustum l = { l with shadow_frustum := l.future_frustum, dirty := false } := by
  simp [commitFrustum, dirty]

@[simp] theorem commitFrustum_dirty (l : DirectionalLight) : (commitFrustum l).dirty = false := by
  cases dirty : l.dirty
  · rw [commitFrustum_of_clean dirty, dirty]
  · rw [commitFrustum_of_dirty dirty]

def LightCall.step (c : LightCall) (l : DirectionalLight) : Option DirectionalLight :=
  match c with
  | .update cam control force => update_frustum BS geom getMaxFarValue cam control force l
  | .commit => some (commitFrustum l)

def DirectionalLight.run : List LightCall → DirectionalLight → Option DirectionalLight
  | [], l => some l
  | c :: cs, l => (c.step BS geom getMaxFarValue l).bind (run cs)

def LightCall.farFits : LightCall → Bool
  | .update _ control _ => (convertToInt 32 (farValue BS getMaxFarValue control)).isSome
  | .commit => true

theorem run_cons_of_step {c : LightCall} {cs : List LightCall} {l l₁ : DirectionalLight}
    (stepped : c.step BS geom getMaxFarValue l = some l₁) :
    DirectionalLight.run BS geom getMaxFarValue (c :: cs) l =
      DirectionalLight.run BS geom getMaxFarValue cs l₁ := by
  simp only [DirectionalLight.run, stepped, Option.some_bind]

theorem run_eq_some_cons {c : LightCall} {cs : List LightCall} {l l' : DirectionalLight}
    (ran : DirectionalLight.run BS geom getMaxFarValue (c :: cs) l = some l') :
    ∃ l₁, c.step BS geom getMaxFarValue l = some l₁ ∧
      DirectionalLight.run BS geom getMaxFarValue cs l₁ = some l' :=
  Option.bind_eq_some.mp ran

theorem run_isSome (cs : List LightCall) (l : DirectionalLight)
    (fits : ∀ c ∈ cs, c.farFits BS getMaxFarValue = true) :
    (DirectionalLight.run BS geom getMaxFarValue cs l).isSome := by
  induction cs generalizing l with
  | nil => rfl
  | cons c cs ih =>
    have defined : (c.step BS geom getMaxFarValue l).isSome := by
      cases c with
      | update cam control force =>
        exact update_frustum_isSome BS geom getMaxFarValue cam force l (fits _ (List.mem_cons_self _ _))
      | commit => rfl
    obtain ⟨l₁, stepped⟩ := Option.isSome_iff_exists.mp defined
    rw [run_cons_of_step BS geom getMaxFarValue stepped]
    exact ih l₁ fun c member => fits c (List.mem_cons_of_mem _ member)

theorem run_invariant (P : DirectionalLight → Prop) {cs : List LightCall} {l l' : DirectionalLight}
    (preserved : ∀ c ∈ cs, ∀ {l₀ l₁}, P l₀ → c.step BS geom getMaxFarValue l₀ = some l₁ → P l₁)
    (init : P l) (ran : DirectionalLight.run BS geom getMaxFarValue cs l = some l') : P l' := by
  induction cs generalizing l with
  | nil => exact Option.some.inj ran ▸ init
  | cons c cs ih =>
    obtain ⟨l₁, stepped, rest⟩ := run_eq_some_cons BS geom getMaxFarValue ran
    exact ih (fun d member => preserved d (List.mem_cons_of_mem c member))
      (preserved c (List.mem_cons_self c cs) init stepped) rest

/-- The invariant of the double buffer: a clean light shows its pending frustum, and both
    frustums are at one camera offset. -/
structure Consistent (l : DirectionalLight) : Prop where
  clean_shows_future : l.dirty = false → l.shadow_frustum = l.future_frustum
  same_offset : l.shadow_frustum.camera_offset = l.future_frustum.camera_offset

theorem consistent_step (c : LightCall) {l l' : DirectionalLight}
    (stepped : c.step BS geom getMaxFarValue l = some l') (inv : Consistent l) : Consistent l' := by
  cases c with
  | update cam control force =>
    rcases update_frustum_cases BS geom getMaxFarValue cam control force stepped with
      ⟨-, rfl⟩ | ⟨-, dirty, future, shown, -⟩
    · exact inv
    · refine ⟨fun clean => absurd (dirty.symm.trans clean) Bool.noConfusion, ?_⟩
      rw [shown, future]
      split
      · rfl
      · next same => exact (not_not.mp same).symm
  | commit =>
    cases (Option.some.inj stepped)
    cases dirty : l.dirty
    · simpa only [commitFrustum_of_clean dirty] using inv
    · rw [commitFrustum_of_dirty dirty]
      exact ⟨fun _ => rfl, rfl⟩

/-- From a consistent light, every run of calls that is defined ends consistent, and a run is
    defined when the far value of each of its updates converts to `s32`. -/
theorem consistent_run (cs : List LightCall) {l : DirectionalLight} (inv : Consistent l) :
    (∀ l', DirectionalLight.run BS geom getMaxFarValue cs l = some l' → Consistent l') ∧
      ((∀ c ∈ cs, c.farFits BS getMaxFarValue = true) →
        (DirectionalLight.run BS geom getMaxFarValue cs l).isSome) :=
  ⟨fun _ => run_invariant BS geom getMaxFarValue Consistent
      (fun c _ _ _ consistent stepped => consistent_step BS geom getMaxFarValue c stepped consistent) inv,
    run_isSome BS geom getMaxFarValue cs l⟩

def restingLight : DirectionalLight := ⟨⟨0, 1, 0⟩, ⟨1, 0, 0⟩, ⟨0, 0, 0⟩,
  ⟨0, 0, 0, 0, ⟨0, 0, 0⟩, ⟨0, 0, 0⟩, ⟨fun _ => 0⟩, ⟨fun _ => 0⟩, ⟨0, 0, 0⟩⟩,
  ⟨0, 0, 0, 0, ⟨0, 0, 0⟩, ⟨0, 0, 0⟩, ⟨fun _ => 0⟩, ⟨fun _ => 0⟩, ⟨0, 0, 0⟩⟩, false, false⟩

def flatGeometry : SplitGeometry := ⟨fun _ _ => 100, fun _ _ _ _ _ => 1, fun d => d,
  fun _ _ => ⟨fun _ => 0⟩, fun _ _ => ⟨fun _ => 1⟩⟩

def nearbyUpdates : List (Camera × MapDrawControl × Bool) :=
  [(⟨⟨1, 0, 0⟩, ⟨3, 0, 4⟩, ⟨1, 0, 0⟩, 1, 1, 1, ⟨0, 1, 0⟩⟩, ⟨false, 10⟩, false)]

theorem nearbyUpdates_fit :
    ∀ c ∈ nearbyUpdates.map (fun u => LightCall.update u.1 u.2.1 u.2.2) ++ [.commit],
      c.farFits 10 100 = true := by
  intro c member
  simp only [nearbyUpdates, List.map_cons, List.map_nil, List.cons_append, List.nil_append,
    List.mem_cons, List.mem_singleton, List.not_mem_nil, or_false] at member
  rcases member with rfl | rfl
  · norm_num [LightCall.farFits, farValue, convertToInt, truncToInt]
  · rfl

theorem consistent_after_update_and_commit :
    ∃ l', DirectionalLight.run 10 flatGeometry 100
      (nearbyUpdates.map (fun u => .update u.1 u.2.1 u.2.2) ++ [.commit]) restingLight = some l' ∧
      Consistent l' := by
  obtain ⟨ended, defined⟩ := consistent_run 10 flatGeometry 100
    (nearbyUpdates.map (fun u => .update u.1 u.2.1 u.2.2) ++ [.commit]) (l := restingLight)
    ⟨fun _ => rfl, rfl⟩
  obtain ⟨l', ran⟩ := Option.isSome_iff_exists.mp
    (defined nearbyUpdates_fit)
  exact ⟨l', ran, ended l' ran⟩

theorem run_append (cs ds : List LightCall) (l : DirectionalLight) :
    DirectionalLight.run BS geom getMaxFarValue (cs ++ ds) l =
      (DirectionalLight.run BS geom getMaxFarValue cs l).bind (DirectionalLight.run BS geom getMaxFarValue ds) := by
  induction cs generalizing l with
  | nil => rfl
  | cons c cs ih =>
    show (c.step BS geom getMaxFarValue l).bind _ = ((c.step BS geom getMaxFarValue l).bind _).bind _
    rw [Option.bind_assoc]
    exact congrArg _ (funext ih)

/-- In exact arithmetic, calls of `update_frustum` alone, whatever the cameras, offsets and
    forcing, never change what the shown frustum shows of the world. -/
theorem updates_keep_shown_world (updates : List (Camera × MapDrawControl × Bool))
    (l : DirectionalLight) :
    ∀ l', DirectionalLight.run BS geom getMaxFarValue
        (updates.map fun u => .update u.1 u.2.1 u.2.2) l = some l' →
      l'.shadow_frustum.world BS = l.shadow_frustum.world BS := by
  refine fun l' => run_invariant BS geom getMaxFarValue
    (fun x => x.shadow_frustum.world BS = l.shadow_frustum.world BS) ?_ rfl
  intro c member _ _ same stepped
  obtain ⟨u, -, rfl⟩ := List.mem_map.mp member
  exact (update_frustum_shadow_world BS geom getMaxFarValue u.1 u.2.1 u.2.2 stepped).trans same

theorem shown_kept_by_offset_change :
    ∃ l', DirectionalLight.run 10 flatGeometry 100
        (nearbyUpdates.map fun u => .update u.1 u.2.1 u.2.2) restingLight = some l' ∧
      l'.shadow_frustum.world 10 = restingLight.shadow_frustum.world 10 := by
  obtain ⟨l', ran⟩ := Option.isSome_iff_exists.mp (run_isSome 10 flatGeometry 100 _ restingLight
    fun c member => nearbyUpdates_fit c (List.mem_append_left _ member))
  exact ⟨l', ran, updates_keep_shown_world 10 flatGeometry 100 nearbyUpdates restingLight l' ran⟩

theorem run_unforced_of_dirty (later : List (Camera × MapDrawControl)) {l : DirectionalLight}
    (dirty : l.dirty = true) :
    DirectionalLight.run BS geom getMaxFarValue (later.map fun u => .update u.1 u.2 false) l =
      some l := by
  induction later with
  | nil => rfl
  | cons u later ih =>
    simp only [List.map_cons, DirectionalLight.run, LightCall.step, update_frustum, dirty,
      Bool.not_false, Bool.and_self, if_true, Option.some_bind]
    exact ih

/-- Between two commits the shown frustum becomes the one the first update computed: the light
    stays dirty from that update on, so the later updates, not forced, change nothing; the run
    is defined exactly when that first update is. -/
theorem commit_shows_first_update (l : DirectionalLight) (cam : Camera) (control : MapDrawControl)
    (later : List (Camera × MapDrawControl)) :
    let first := update_frustum BS geom getMaxFarValue cam control false (commitFrustum l)
    let calls := LightCall.commit :: LightCall.update cam control false ::
      later.map (fun u => .update u.1 u.2 false) ++ [LightCall.commit]
    (DirectionalLight.run BS geom getMaxFarValue calls l).map (·.shadow_frustum) =
        first.map (·.future_frustum) ∧
      (DirectionalLight.run BS geom getMaxFarValue calls l).map (·.dirty) = first.map fun _ => false := by
  dsimp only
  have dirty (f : DirectionalLight)
      (ran : update_frustum BS geom getMaxFarValue cam control false (commitFrustum l) = some f) :
      f.dirty = true :=
    ((update_frustum_cases BS geom getMaxFarValue cam control false ran).resolve_left
      fun ⟨skip, _⟩ => by simp at skip).2.1
  cases ran : update_frustum BS geom getMaxFarValue cam control false (commitFrustum l) with
  | none => simp [DirectionalLight.run, LightCall.step, ran]
  | some f =>
    simp only [DirectionalLight.run, LightCall.step, Option.some_bind, List.append_eq, ran, run_append,
      run_unforced_of_dirty BS geom getMaxFarValue later (dirty f ran)]
    simp [DirectionalLight.run, LightCall.step, commitFrustum_of_dirty (dirty f ran)]

end Light

end NekoVoxel
