import Mathlib.Data.List.TakeWhile
import EngineKit.Ecs.Query
import EngineKit.Lib.Runs
import EngineKit.Render.World

/-!
# The frame that is prepared

`extract_typed` walks the live entities of the world and copies what has both render components;
`build` sorts the copies and cuts them into runs of one mesh and material; `prepare` copies the
result into the buffers of the frame. When all three succeed, what is prepared is a function of the
set of entities with both components, and of nothing else (`prepared_frame`): entities are told
apart by the sort key, so there is one sorted order of them, and one cut of it.
-/

set_option autoImplicit false

namespace EngineKit
namespace Render

open Lib

/-! ## The world -/

/-- The types of components: the two the renderer reads, and any others. -/
inductive RenderComponent (D : Type) where
  | transform
  | material
  | other (d : D)
deriving DecidableEq

def RenderComponent.Val (F : Type) {D : Type} (V : D → Type) : RenderComponent D → Type
  | .transform => RenderTransform F
  | .material => RenderMaterial
  | .other d => V d

variable {F D : Type} [DecidableEq D] {V : D → Type}

abbrev SimWorld (F : Type) {D : Type} (V : D → Type) : Type :=
  Ecs.World (RenderComponent D) (RenderComponent.Val F V)

/-- The instance of an entity with the two components. -/
def instanceOf (entity : Ecs.Entity) (transform : RenderTransform F) (material : RenderMaterial) :
    RenderInstance F :=
  ⟨⟨entity.index, entity.generation⟩, transform.matrix, transform.bounds, material.meshId,
    material.materialId⟩

/-- The closure that `extract_typed` passes to `extract_with`. -/
def typedInstance (w : SimWorld F V) (entity : Ecs.Entity) : Option (RenderInstance F) := do
  let transform : RenderTransform F ← w.get .transform entity
  let material : RenderMaterial ← w.get .material entity
  some (instanceOf entity transform material)

/-- What the closure of `extract_with` keeps between its calls. -/
structure Extraction (F : Type) where
  world : RenderWorld F
  stats : ExtractionStats
  error : Option RenderWorldError

/-- One call of the closure that `extract_with` passes to `for_each_entity`. -/
def Extraction.visit (project : Ecs.Entity → Option (RenderInstance F)) (run : Extraction F)
    (entity : Ecs.Entity) : Extraction F :=
  match run.error with
  | some _ => run
  | none =>
    let stats := { run.stats with considered := saturatingSucc run.stats.considered }
    match project entity with
    | none => { run with stats }
    | some inst =>
      match run.world.tryPush inst with
      | .ok world =>
        { run with world, stats := { stats with extracted := saturatingSucc stats.extracted } }
      | .error e =>
        { run with
          stats := { stats with rejected := saturatingSucc stats.rejected }, error := some e }

def Extraction.result (run : Extraction F) :
    RenderWorld F × Except RenderWorldError ExtractionStats :=
  match run.error with
  | some e => (run.world, .error e)
  | none => (run.world, .ok run.stats)

/-- `RenderWorld::extract_typed`. -/
def RenderWorld.extractWorld (world : RenderWorld F) (w : SimWorld F V) :
    RenderWorld F × Except RenderWorldError ExtractionStats :=
  (w.forEachEntity (Extraction.visit (typedInstance w))
    ⟨{ world with instances := [] }, ⟨0, 0, 0⟩, none⟩).result

/-- A live entity as the renderer sees it. -/
def renderEntity (w : SimWorld F V) (entity : Ecs.Entity) : WorldEntity F :=
  ⟨⟨entity.index, entity.generation⟩, w.get .transform entity, w.get .material entity⟩

/-! ## Extraction -/

theorem typedInstance_eq (w : SimWorld F V) (entity : Ecs.Entity) :
    typedInstance w entity = (renderEntity w entity).project := rfl

/-- Once a push was refused, the rest of the walk does nothing. -/
theorem foldl_visit_error (project : Ecs.Entity → Option (RenderInstance F)) {run : Extraction F}
    {e : RenderWorldError} (h : run.error = some e) (entities : List Ecs.Entity) :
    entities.foldl (Extraction.visit project) run = run := by
  induction entities with
  | nil => rfl
  | cons entity entities ih =>
    have hstep : Extraction.visit project run entity = run := by simp only [Extraction.visit, h]
    rw [List.foldl_cons, hstep, ih]

theorem foldl_visit (w : SimWorld F V) (entities : List Ecs.Entity) (world : RenderWorld F)
    (stats : ExtractionStats) :
    (entities.foldl (Extraction.visit (typedInstance w)) ⟨world, stats, none⟩).result =
      RenderWorld.extractFrom WorldEntity.project world stats (entities.map (renderEntity w)) := by
  induction entities generalizing world stats with
  | nil => rfl
  | cons entity entities ih =>
    rw [List.foldl_cons, List.map_cons, RenderWorld.extractFrom, Extraction.visit, typedInstance_eq]
    cases hp : (renderEntity w entity).project with
    | none => exact ih _ _
    | some inst =>
      cases hpush : world.tryPush inst with
      | ok world' =>
        simp only [hpush]
        exact ih _ _
      | error e =>
        simp only [hpush]
        rw [foldl_visit_error (typedInstance w) rfl]
        rfl

/-- **The walk of `extract_typed`** is the loop over the live entities in the order of their
    slots. -/
theorem extractWorld_eq {w : SimWorld F V} (hw : Ecs.World.Reachable w) (world : RenderWorld F) :
    ∃ visited : List Ecs.Entity, visited.Pairwise (fun x y => x.index < y.index) ∧
      (∀ entity, entity ∈ visited ↔ w.IsAlive entity) ∧
      world.extractWorld w = world.extractTyped (visited.map (renderEntity w)) := by
  obtain ⟨visited, hsorted, hmem, hfold⟩ := hw.inv.forEachEntity
  refine ⟨visited, hsorted, hmem, ?_⟩
  rw [RenderWorld.extractWorld, hfold, foldl_visit]
  rfl

/-- An extraction that succeeds has copied every projection. -/
theorem extractFrom_ok {project : WorldEntity F → Option (RenderInstance F)}
    {world world' : RenderWorld F} {stats stats' : ExtractionStats}
    {entities : List (WorldEntity F)}
    (h : RenderWorld.extractFrom project world stats entities = (world', .ok stats')) :
    world'.instances = world.instances ++ entities.filterMap project := by
  induction entities generalizing world stats with
  | nil =>
    obtain ⟨rfl, -⟩ := Prod.mk.inj h
    rw [List.filterMap_nil, List.append_nil]
  | cons entity entities ih =>
    rw [RenderWorld.extractFrom] at h
    cases hp : project entity with
    | none =>
      simp only [hp] at h
      rw [List.filterMap_cons_none hp]
      exact ih h
    | some inst =>
      simp only [hp, RenderWorld.tryPush] at h
      rw [List.filterMap_cons_some hp]
      split at h
      · next hpush => exact absurd (Prod.mk.inj h).2 (by simp)
      · next pushed hpush =>
        split at hpush
        · cases hpush
        · obtain rfl := Except.ok.inj hpush
          rw [ih h, List.append_assoc, List.singleton_append]

/-- The entity is live and has the two components. -/
def Renders (w : SimWorld F V) (entity : Ecs.Entity) (transform : RenderTransform F)
    (material : RenderMaterial) : Prop :=
  w.IsAlive entity ∧ w.get .transform entity = some transform ∧
    w.get .material entity = some material

/-- The instance of some entity of the world. -/
def InstanceIn (w : SimWorld F V) (inst : RenderInstance F) : Prop :=
  ∃ entity transform material, Renders w entity transform material ∧
    inst = instanceOf entity transform material

theorem typedInstance_eq_some {w : SimWorld F V} {entity : Ecs.Entity} {inst : RenderInstance F} :
    typedInstance w entity = some inst ↔ ∃ transform material,
      w.get .transform entity = some transform ∧ w.get .material entity = some material ∧
        inst = instanceOf entity transform material := by
  unfold typedInstance
  constructor
  · intro h
    obtain ⟨transform, htransform, h⟩ := Option.bind_eq_some_iff.mp h
    obtain ⟨material, hmaterial, h⟩ := Option.bind_eq_some_iff.mp h
    exact ⟨transform, material, htransform, hmaterial, (Option.some.inj h).symm⟩
  · intro hex
    obtain ⟨transform, material, htransform, hmaterial, rfl⟩ := hex
    exact Option.bind_eq_some_iff.mpr
      ⟨transform, htransform, Option.bind_eq_some_iff.mpr ⟨material, hmaterial, rfl⟩⟩

/-- **What is extracted**: an instance for each entity with both components, and no other, the
    entities in the order of their slots. -/
theorem extractWorld_ok {w : SimWorld F V} (hw : Ecs.World.Reachable w) {world : RenderWorld F}
    {stats : ExtractionStats} (h : (world.extractWorld w).2 = .ok stats) :
    (world.extractWorld w).1.instances.Pairwise (fun a b => a.entity.index < b.entity.index) ∧
      ∀ inst, inst ∈ (world.extractWorld w).1.instances ↔ InstanceIn w inst := by
  obtain ⟨visited, hsorted, hmem, heq⟩ := extractWorld_eq hw world
  have hinstances : (world.extractWorld w).1.instances = visited.filterMap (typedInstance w) := by
    have hpair : world.extractTyped (visited.map (renderEntity w)) =
        ((world.extractTyped (visited.map (renderEntity w))).1, .ok stats) := by
      rw [← heq, ← h]
    have hall := extractFrom_ok hpair
    rw [List.nil_append, List.filterMap_map] at hall
    rw [heq, hall]
    rfl
  rw [hinstances]
  constructor
  · refine List.Pairwise.filterMap (typedInstance w) ?_ hsorted
    intro x y hlt a ha b hb
    obtain ⟨_, _, -, -, rfl⟩ := typedInstance_eq_some.mp ha
    obtain ⟨_, _, -, -, rfl⟩ := typedInstance_eq_some.mp hb
    exact hlt
  · intro inst
    rw [List.mem_filterMap]
    constructor
    · intro hex
      obtain ⟨entity, hentity, hinst⟩ := hex
      obtain ⟨transform, material, htransform, hmaterial, rfl⟩ := typedInstance_eq_some.mp hinst
      exact ⟨entity, transform, material, ⟨(hmem entity).mp hentity, htransform, hmaterial⟩, rfl⟩
    · intro hex
      obtain ⟨entity, transform, material, ⟨halive, htransform, hmaterial⟩, rfl⟩ := hex
      exact ⟨entity, (hmem entity).mpr halive,
        typedInstance_eq_some.mpr ⟨transform, material, htransform, hmaterial, rfl⟩⟩

/-! ## Sorting -/

/-- What a draw binds. -/
def RenderInstance.drawKey (inst : RenderInstance F) : Nat ×ₗ Nat :=
  toLex (inst.meshId.toNat, inst.materialId.toNat)

theorem entity_of_sortKey {a b : RenderInstance F} (h : a.sortKey = b.sortKey) :
    a.entity = b.entity := by
  simp only [RenderInstance.sortKey, toLex_inj, Prod.mk.injEq, UInt32.toNat_inj] at h
  obtain ⟨-, -, hindex, hgeneration⟩ := h
  obtain ⟨⟨index, generation⟩, _, _, _, _⟩ := a
  obtain ⟨⟨index', generation'⟩, _, _, _, _⟩ := b
  exact congrArg₂ Entity.mk hindex hgeneration

theorem drawKey_le {a b : RenderInstance F} (h : a.sortKey ≤ b.sortKey) :
    a.drawKey ≤ b.drawKey := by
  simp only [RenderInstance.sortKey, RenderInstance.drawKey, Prod.Lex.toLex_le_toLex] at h ⊢
  rcases h with h | ⟨h, h' | ⟨h', -⟩⟩
  · exact .inl h
  · exact .inr ⟨h, Nat.le_of_lt h'⟩
  · exact .inr ⟨h, Nat.le_of_eq h'⟩

theorem sorted_sortInstances (instances : List (RenderInstance F)) :
    (sortInstances instances).Pairwise fun a b => a.sortKey ≤ b.sortKey :=
  List.pairwise_insertionSort _ instances

theorem mem_sortInstances {instances : List (RenderInstance F)} {inst : RenderInstance F} :
    inst ∈ sortInstances instances ↔ inst ∈ instances :=
  List.mem_insertionSort _

/-- An entity has one instance. -/
theorem InstanceIn.eq_of_entity {w : SimWorld F V} {a b : RenderInstance F} (ha : InstanceIn w a)
    (hb : InstanceIn w b) (h : a.entity = b.entity) : a = b := by
  obtain ⟨entity, transform, material, ⟨-, htransform, hmaterial⟩, rfl⟩ := ha
  obtain ⟨entity', transform', material', ⟨-, htransform', hmaterial'⟩, rfl⟩ := hb
  obtain rfl : entity = entity' := by
    obtain ⟨index, generation⟩ := entity
    obtain ⟨index', generation'⟩ := entity'
    obtain ⟨rfl, rfl⟩ := Entity.mk.inj h
    rfl
  obtain rfl := Option.some.inj (htransform.symm.trans htransform')
  obtain rfl := Option.some.inj (hmaterial.symm.trans hmaterial')
  rfl

/-- Two worlds with the same renderable entities sort to one list. -/
theorem sorted_unique {w w' : SimWorld F V} {instances instances' : List (RenderInstance F)}
    (hw : ∀ inst, inst ∈ instances ↔ InstanceIn w inst)
    (hw' : ∀ inst, inst ∈ instances' ↔ InstanceIn w' inst)
    (hsame : ∀ inst, InstanceIn w inst ↔ InstanceIn w' inst) (hnodup : instances.Nodup)
    (hnodup' : instances'.Nodup) : sortInstances instances = sortInstances instances' := by
  have hperm : List.Perm (sortInstances instances) (sortInstances instances') := by
    refine (List.perm_insertionSort _ instances).trans
      (List.Perm.trans ?_ (List.perm_insertionSort _ instances').symm)
    rw [List.perm_ext_iff_of_nodup hnodup hnodup']
    intro inst
    rw [hw, hw', hsame]
  refine hperm.eq_of_pairwise ?_ (sorted_sortInstances instances) (sorted_sortInstances instances')
  -- the key tells two instances of one world apart
  intro a b ha hb hle hge
  have ha' : InstanceIn w a := (hw a).mp (mem_sortInstances.mp ha)
  have hb' : InstanceIn w b := (hsame b).mpr ((hw' b).mp (mem_sortInstances.mp hb))
  exact ha'.eq_of_entity hb' (entity_of_sortKey (le_antisymm hle hge))

/-! ## Batches -/

/-- A batch as a run of draw keys. -/
def DrawBatch.run (batch : DrawBatch) : Run (Nat ×ₗ Nat) :=
  ⟨toLex (batch.meshId.toNat, batch.materialId.toNat), batch.firstInstance.toNat,
    batch.instanceCount.toNat⟩

theorem DrawBatch.run_inj {a b : DrawBatch} (h : a.run = b.run) : a = b := by
  obtain ⟨meshId, materialId, firstInstance, instanceCount⟩ := a
  obtain ⟨meshId', materialId', firstInstance', instanceCount'⟩ := b
  simp only [DrawBatch.run, Run.mk.injEq, toLex_inj, Prod.mk.injEq, UInt32.toNat_inj] at h
  obtain ⟨⟨rfl, rfl⟩, rfl, rfl⟩ := h
  rfl

theorem drawKey_eq_iff {a b : RenderInstance F} :
    a.drawKey = b.drawKey ↔ a.meshId = b.meshId ∧ a.materialId = b.materialId := by
  simp only [RenderInstance.drawKey, toLex_inj, Prod.mk.injEq, UInt32.toNat_inj]

/-- **One round of the batching loop.** The batch takes the instances that bind what the first of
    them binds, and stops at one that does not. -/
theorem pushDrawBatches_cons {maxBatches fuel start : Nat} {first : RenderInstance F}
    {rest : List (RenderInstance F)} {batches batches' : List DrawBatch}
    (h : pushDrawBatches maxBatches (fuel + 1) start (first :: rest) batches =
      (batches', .ok ())) :
    ∃ same others batch, rest = same ++ others ∧
      (∀ inst ∈ same, inst.drawKey = first.drawKey) ∧
      (∀ inst ∈ others.head?, inst.drawKey ≠ first.drawKey) ∧
      DrawBatch.run batch = ⟨first.drawKey, start, same.length + 1⟩ ∧
      pushDrawBatches maxBatches fuel (start + 1 + same.length) others (batches ++ [batch]) =
        (batches', .ok ()) := by
  rw [pushDrawBatches] at h
  generalize hp : (fun inst : RenderInstance F =>
    decide (inst.meshId = first.meshId ∧ inst.materialId = first.materialId)) = p at h
  have hkey (inst : RenderInstance F) : p inst = true ↔ inst.drawKey = first.drawKey := by
    rw [← hp, decide_eq_true_iff, drawKey_eq_iff]
  have hsplit : rest = rest.takeWhile p ++ rest.dropWhile p :=
    List.takeWhile_append_dropWhile.symm
  have hdrop : rest.drop (rest.takeWhile p).length = rest.dropWhile p :=
    (congrArg (List.drop (rest.takeWhile p).length) hsplit).trans List.drop_left
  split at h
  · exact absurd (Prod.mk.inj h).2 (by simp)
  · split at h
    · next firstInstance instanceCount hfirst hcount =>
      refine ⟨rest.takeWhile p, rest.dropWhile p,
        ⟨first.meshId, first.materialId, firstInstance, instanceCount⟩, hsplit, ?_, ?_, ?_, ?_⟩
      · intro inst hinst
        exact (hkey inst).mp (List.mem_takeWhile_imp hinst)
      · intro inst hinst hsame
        have hstop := List.head?_dropWhile_not p rest
        rw [Option.mem_def.mp hinst] at hstop
        exact absurd ((hkey inst).mpr hsame) (by simpa using hstop)
      · rw [DrawBatch.run, toNat_of_u32TryFrom hfirst, toNat_of_u32TryFrom hcount,
          RenderInstance.drawKey]
        congr 1
        omega
      · rw [← hdrop]
        exact h
    · exact absurd (Prod.mk.inj h).2 (by simp)

/-- **The batching loop** cuts what is left into runs. -/
theorem pushDrawBatches_cut {maxBatches fuel start : Nat} {instances : List (RenderInstance F)}
    {batches batches' : List DrawBatch} (hfuel : instances.length ≤ fuel)
    (h : pushDrawBatches maxBatches fuel start instances batches = (batches', .ok ())) :
    ∃ new, batches' = batches ++ new ∧
      Cut start (instances.map RenderInstance.drawKey) (new.map DrawBatch.run) := by
  induction fuel generalizing start instances batches with
  | zero =>
    obtain rfl := List.length_eq_zero_iff.mp (Nat.le_zero.mp hfuel)
    obtain rfl := (Prod.mk.inj h).1
    exact ⟨[], (List.append_nil batches).symm, .nil start⟩
  | succ fuel ih =>
    cases instances with
    | nil =>
      obtain rfl := (Prod.mk.inj h).1
      exact ⟨[], (List.append_nil batches).symm, .nil start⟩
    | cons first rest =>
      obtain ⟨same, others, batch, rfl, hsame, hnext, hrun, hrest⟩ := pushDrawBatches_cons h
      rw [List.length_cons, List.length_append] at hfuel
      obtain ⟨new, rfl, hcut⟩ := ih (by omega) hrest
      refine ⟨batch :: new, by rw [List.append_assoc, List.singleton_append], ?_⟩
      have hkeys : (first :: (same ++ others)).map RenderInstance.drawKey =
          List.replicate (same.length + 1) first.drawKey ++ others.map RenderInstance.drawKey := by
        rw [List.map_cons, List.map_append, List.replicate_succ, List.cons_append]
        congr 2
        exact List.map_eq_replicate_iff.mpr hsame
      rw [hkeys, List.map_cons, hrun]
      refine .cons (Nat.succ_pos _) ?_ ?_
      · intro r hr
        have hhead := hcut.head_key
        rw [Option.mem_def.mp hr, List.head?_map] at hhead
        obtain ⟨inst, hinst, heq⟩ := Option.map_eq_some_iff.mp hhead
        rw [← heq]
        exact hnext inst hinst
      · rw [Nat.add_right_comm] at hcut
        exact hcut

/-- **The manifest**: the instances sorted, and the cut of them. -/
theorem build_ok {manifest manifest' : CpuRenderManifest F} {world : RenderWorld F}
    (h : manifest.build world = (manifest', .ok ())) :
    manifest'.instances = sortInstances world.instances ∧
      Cut 0 (manifest'.instances.map RenderInstance.drawKey)
        (manifest'.batches.map DrawBatch.run) := by
  simp only [CpuRenderManifest.build] at h
  split at h
  · exact absurd (Prod.mk.inj h).2 (by simp)
  · obtain ⟨rfl, hresult⟩ := Prod.mk.inj h
    refine ⟨rfl, ?_⟩
    obtain ⟨new, hnew, hcut⟩ := pushDrawBatches_cut (le_refl _) (Prod.ext rfl hresult)
    rw [List.nil_append] at hnew
    obtain rfl := hnew
    exact hcut

/-! ## Commands -/

/-- The command of a batch. -/
def DrawBatch.command (batch : DrawBatch) : IndirectDrawCommand :=
  ⟨batch.meshId, batch.materialId, batch.firstInstance, batch.instanceCount⟩

theorem pushCommands_ok {instances : Nat} {batches : List DrawBatch}
    {commands commands' : List IndirectDrawCommand}
    (h : pushCommands instances batches commands = (commands', .ok ())) :
    commands' = commands ++ batches.map DrawBatch.command := by
  induction batches generalizing commands with
  | nil =>
    obtain rfl := (Prod.mk.inj h).1
    exact (List.append_nil commands).symm
  | cons batch batches ih =>
    rw [pushCommands] at h
    split at h
    · exact absurd (Prod.mk.inj h).2 (by simp)
    · rw [ih h, List.append_assoc, List.map_cons, List.singleton_append]
      rfl

theorem prepare_ok {preparation preparation' : GpuFramePreparation F}
    {manifest : CpuRenderManifest F} (h : preparation.prepare manifest = (preparation', .ok ())) :
    preparation'.instances = manifest.instances ∧
      preparation'.commands = manifest.batches.map DrawBatch.command := by
  simp only [GpuFramePreparation.prepare] at h
  split at h
  · exact absurd (Prod.mk.inj h).2 (by simp)
  · obtain ⟨rfl, hresult⟩ := Prod.mk.inj h
    exact ⟨rfl, pushCommands_ok (Prod.ext rfl hresult)⟩

/-! ## The frame -/

/-- The buffers that the three steps reuse from frame to frame. -/
structure FrameBuffers (F : Type) where
  world : RenderWorld F
  manifest : CpuRenderManifest F
  preparation : GpuFramePreparation F

/-- The three steps, each of which returns `Ok`. -/
structure FrameBuffers.Prepares (old : FrameBuffers F) (w : SimWorld F V) (new : FrameBuffers F) :
    Prop where
  extracted : ∃ stats, old.world.extractWorld w = (new.world, .ok stats)
  built : old.manifest.build new.world = (new.manifest, .ok ())
  prepared : old.preparation.prepare new.manifest = (new.preparation, .ok ())

/-- What a prepared frame is: the sorted instances of the world and the cut of them. -/
structure Frame (w : SimWorld F V) (preparation : GpuFramePreparation F)
    (batches : List DrawBatch) : Prop where
  instances : ∃ copied : List (RenderInstance F),
    copied.Pairwise (fun a b => a.entity.index < b.entity.index) ∧
      (∀ inst, inst ∈ copied ↔ InstanceIn w inst) ∧ preparation.instances = sortInstances copied
  commands : preparation.commands = batches.map DrawBatch.command
  cut : Cut 0 (preparation.instances.map RenderInstance.drawKey) (batches.map DrawBatch.run)

theorem FrameBuffers.Prepares.frame {w : SimWorld F V} (hw : Ecs.World.Reachable w)
    {old new : FrameBuffers F} (h : old.Prepares w new) :
    Frame w new.preparation new.manifest.batches := by
  obtain ⟨⟨stats, hextract⟩, hbuild, hprepare⟩ := h
  obtain ⟨hsorted, hmem⟩ := extractWorld_ok hw (congrArg Prod.snd hextract)
  obtain ⟨hinstances, hcut⟩ := build_ok hbuild
  obtain ⟨hcopied, hcommands⟩ := prepare_ok hprepare
  rw [hextract] at hsorted hmem
  rw [← hcopied] at hinstances hcut
  exact ⟨⟨new.world.instances, hsorted, hmem, hinstances⟩, hcommands, hcut⟩

section Frame

variable {w : SimWorld F V} {preparation : GpuFramePreparation F} {batches : List DrawBatch}

/-- Each entity once, with what it has. -/
theorem Frame.mem (h : Frame w preparation batches) (inst : RenderInstance F) :
    inst ∈ preparation.instances ↔ InstanceIn w inst := by
  obtain ⟨copied, -, hmem, heq⟩ := h.instances
  rw [heq, mem_sortInstances, hmem]

theorem Frame.nodup (h : Frame w preparation batches) :
    (preparation.instances.map RenderInstance.entity).Nodup := by
  obtain ⟨copied, hsorted, -, heq⟩ := h.instances
  have hperm := (List.perm_insertionSort (fun a b => a.sortKey ≤ b.sortKey) copied).map
    RenderInstance.entity
  rw [heq, sortInstances, hperm.nodup_iff, List.nodup_iff_pairwise_ne, List.pairwise_map]
  refine hsorted.imp ?_
  intro a b hlt heq
  rw [heq] at hlt
  exact UInt32.lt_irrefl _ hlt

/-- The commands' ranges, in order, are the whole stream. -/
theorem Frame.ranges (h : Frame w preparation batches) :
    preparation.commands.flatMap
        (fun c => List.range' c.firstInstance.toNat c.instanceCount.toNat) =
      List.range preparation.instances.length := by
  have hindices := h.cut.indices
  rw [List.flatMap_map, List.length_map, ← List.range_eq_range'] at hindices
  rw [h.commands, List.flatMap_map]
  exact hindices

/-- An instance in a command's range binds what the command binds. -/
theorem Frame.binds (h : Frame w preparation batches) {c : IndirectDrawCommand}
    (hc : c ∈ preparation.commands) {j : Nat} (hj : j < c.instanceCount.toNat) :
    ∃ inst, preparation.instances[c.firstInstance.toNat + j]? = some inst ∧
      inst.meshId = c.meshId ∧ inst.materialId = c.materialId := by
  rw [h.commands] at hc
  obtain ⟨batch, hbatch, rfl⟩ := List.mem_map.mp hc
  obtain ⟨-, hkeys⟩ := h.cut.getElem? (List.mem_map_of_mem hbatch)
  have hkey := hkeys j hj
  rw [Nat.sub_zero, List.getElem?_map] at hkey
  obtain ⟨inst, hinst, heq⟩ := Option.map_eq_some_iff.mp hkey
  simp only [RenderInstance.drawKey, DrawBatch.run, toLex_inj, Prod.mk.injEq,
    UInt32.toNat_inj] at heq
  exact ⟨inst, hinst, heq⟩

/-- No two commands bind the same. -/
theorem Frame.distinct (h : Frame w preparation batches) :
    (preparation.commands.map fun c => (c.meshId, c.materialId)).Nodup := by
  obtain ⟨copied, -, -, heq⟩ := h.instances
  have hsorted : (preparation.instances.map RenderInstance.drawKey).Pairwise (· ≤ ·) := by
    rw [heq, List.pairwise_map]
    exact (sorted_sortInstances copied).imp drawKey_le
  have hkeys := h.cut.nodup_keys hsorted
  rw [List.map_map] at hkeys
  rw [h.commands, List.map_map]
  refine List.Nodup.of_map (fun p : UInt32 × UInt32 => toLex (p.1.toNat, p.2.toNat)) ?_
  rw [List.map_map]
  exact hkeys

/-- **History does not show**: worlds with the same renderable entities prepare the same frame. -/
theorem Frame.unique {w' : SimWorld F V} {preparation' : GpuFramePreparation F}
    {batches' : List DrawBatch} (h : Frame w preparation batches)
    (h' : Frame w' preparation' batches') (hsame : ∀ inst, InstanceIn w inst ↔ InstanceIn w' inst) :
    preparation.instances = preparation'.instances ∧
      preparation.commands = preparation'.commands := by
  have hdistinct {copied : List (RenderInstance F)}
      (hsorted : copied.Pairwise fun a b => a.entity.index < b.entity.index) : copied.Nodup := by
    refine hsorted.imp ?_
    rintro a _ hlt rfl
    exact UInt32.lt_irrefl _ hlt
  obtain ⟨copied, hsorted, hmem, heq⟩ := h.instances
  obtain ⟨copied', hsorted', hmem', heq'⟩ := h'.instances
  have hinstances : preparation.instances = preparation'.instances := by
    rw [heq, heq']
    exact sorted_unique hmem hmem' hsame (hdistinct hsorted) (hdistinct hsorted')
  have hcut := h.cut
  rw [hinstances] at hcut
  have hbatches : batches = batches' :=
    List.map_injective_iff.mpr (fun _ _ => DrawBatch.run_inj) (hcut.unique h'.cut)
  rw [h.commands, h'.commands, hbatches]
  exact ⟨hinstances, rfl⟩

end Frame

theorem instanceIn_congr {w w' : SimWorld F V}
    (hsame : ∀ entity transform material,
      Renders w entity transform material ↔ Renders w' entity transform material)
    (inst : RenderInstance F) : InstanceIn w inst ↔ InstanceIn w' inst := by
  unfold InstanceIn
  simp only [hsame]

/-- **The prepared frame.** Whatever the buffers hold and however much they can, when all three
    steps succeed: the instances are those of the entities with both components, one for each
    entity; the commands' ranges are the stream, cut in order; an instance binds what its command
    binds, and no two commands bind the same. And from any other buffers, a world with the same
    renderable entities prepares the same instances and commands. -/
theorem prepared_frame {w : SimWorld F V} (hw : Ecs.World.Reachable w) {old new : FrameBuffers F}
    (h : old.Prepares w new) :
    (new.preparation.instances.map RenderInstance.entity).Nodup ∧
    (∀ inst, inst ∈ new.preparation.instances ↔ ∃ entity transform material,
      Renders w entity transform material ∧ inst = instanceOf entity transform material) ∧
    new.preparation.commands.flatMap
        (fun c => List.range' c.firstInstance.toNat c.instanceCount.toNat) =
      List.range new.preparation.instances.length ∧
    (∀ c ∈ new.preparation.commands, ∀ j < c.instanceCount.toNat,
      ∃ inst, new.preparation.instances[c.firstInstance.toNat + j]? = some inst ∧
        inst.meshId = c.meshId ∧ inst.materialId = c.materialId) ∧
    (new.preparation.commands.map fun c => (c.meshId, c.materialId)).Nodup ∧
    ∀ {w' : SimWorld F V} {old' new' : FrameBuffers F}, Ecs.World.Reachable w' →
      old'.Prepares w' new' →
      (∀ entity transform material,
        Renders w entity transform material ↔ Renders w' entity transform material) →
      new.preparation.instances = new'.preparation.instances ∧
        new.preparation.commands = new'.preparation.commands := by
  have hframe := h.frame hw
  refine ⟨hframe.nodup, hframe.mem, hframe.ranges, fun c hc j hj => hframe.binds hc hj,
    hframe.distinct, ?_⟩
  intro w' old' new' hw' h' hsame
  exact hframe.unique (h'.frame hw') (instanceIn_congr hsame)

/-- One entity with the two components, of mesh 3 and material 4. -/
def oneRenderable : SimWorld Nat fun _ : Unit => Nat :=
  let transform : RenderTransform Nat := ⟨.replicate 12 1, .replicate 4 2⟩
  let material : RenderMaterial := ⟨3, 4⟩
  let spawned := (Ecs.World.new.trySpawn true true).2
  let placed := (spawned.tryInsert ⟨true, true, true, true⟩ .transform ⟨0, 0⟩ transform).2
  (placed.tryInsert ⟨true, true, true, true⟩ .material ⟨0, 0⟩ material).2

/-- Buffers with what an earlier frame left in them. -/
def staleBuffers : FrameBuffers Nat :=
  ⟨⟨[⟨⟨9, 9⟩, .replicate 12 0, .replicate 4 0, 9, 9⟩], 2⟩, ⟨[], [⟨9, 9, 0, 1⟩], 2, 2⟩,
    ⟨[], [⟨9, 9, 0, 1⟩], 2, 2⟩⟩

/-- The one instance is prepared into buffers that hold another frame. -/
theorem prepared_oneRenderable : ∃ new : FrameBuffers Nat,
    staleBuffers.Prepares oneRenderable new ∧
      instanceOf ⟨0, 0⟩ ⟨.replicate 12 1, .replicate 4 2⟩ ⟨3, 4⟩ ∈ new.preparation.instances := by
  have hreachable : Ecs.World.Reachable oneRenderable :=
    .tail (.tail (.single ⟨(), .trySpawn .new true true⟩)
      ⟨(), .tryInsert _ ⟨true, true, true, true⟩ RenderComponent.transform ⟨0, 0⟩ _⟩)
      ⟨(), .tryInsert _ ⟨true, true, true, true⟩ RenderComponent.material ⟨0, 0⟩ _⟩
  let inst : RenderInstance Nat :=
    instanceOf ⟨0, 0⟩ ⟨.replicate 12 1, .replicate 4 2⟩ ⟨3, 4⟩
  have hextract : staleBuffers.world.extractWorld oneRenderable = (⟨[inst], 2⟩, .ok ⟨1, 1, 0⟩) := by
    have hindices : indices oneRenderable.alive.words = [0] := by decide
    rw [RenderWorld.extractWorld, Ecs.World.forEachEntity, eachIndex_eq, hindices]
    rfl
  have hnew : staleBuffers.Prepares oneRenderable
      ⟨⟨[inst], 2⟩, ⟨[inst], [⟨3, 4, 0, 1⟩], 2, 2⟩, ⟨[inst], [⟨3, 4, 0, 1⟩], 2, 2⟩⟩ :=
    ⟨⟨_, hextract⟩, rfl, rfl⟩
  refine ⟨_, hnew, ((prepared_frame hreachable hnew).2.1 _).mpr ⟨⟨0, 0⟩, _, _, ?_, rfl⟩⟩
  exact ⟨by decide, rfl, rfl⟩

end Render
end EngineKit
