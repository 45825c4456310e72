import EngineKit.Ecs.Inserted

/-!
# Deferred commands

A bounded buffer of spawns and despawns that a world takes in one go. The buffer's vector is
reserved to its capacity when it is made, and draining keeps the allocation, so a push never
allocates; it is refused only when the buffer is full.

Applying a buffer is making its calls one by one (`apply_eq`). Slots are freed and reused under
each other on the way, and a handle later in the batch may name a slot that changed hands earlier
in it. That this touches nobody else is `Bystander`, which every call but a despawn of the very
handle keeps; that what the batch made has no components is `Bare`, which a spawn begins and every
call keeps.
-/

set_option autoImplicit false

namespace EngineKit
namespace Ecs

open Lib

inductive DeferredCommand where
  | spawn
  | despawn (entity : Entity)
deriving DecidableEq

inductive DeferredCommandError where
  | capacityExceeded
  | allocationFailed
deriving DecidableEq

/-- No vector is of more than `isize::MAX` bytes, and a command takes twelve. -/
structure DeferredCommands where
  commands : List DeferredCommand
  capacity : Nat
  within : commands.length ≤ capacity
  small : capacity * 12 < 2 ^ 63

namespace DeferredCommands

def tryWithCapacity (room : Bool) (capacity : Nat) :
    Except DeferredCommandError DeferredCommands :=
  if h : capacity * 12 < 2 ^ 63 ∧ room then .ok ⟨[], capacity, Nat.zero_le _, h.1⟩
  else .error .allocationFailed

def push (buffer : DeferredCommands) (command : DeferredCommand) :
    Except DeferredCommandError Unit × DeferredCommands :=
  if h : buffer.capacity ≤ buffer.commands.length then (.error .capacityExceeded, buffer)
  else
    (.ok (), { buffer with
      commands := buffer.commands ++ [command]
      within := by rw [List.length_append, List.length_singleton]; omega })

def trySpawn (buffer : DeferredCommands) : Except DeferredCommandError Unit × DeferredCommands :=
  buffer.push .spawn

def tryDespawn (buffer : DeferredCommands) (entity : Entity) :
    Except DeferredCommandError Unit × DeferredCommands :=
  buffer.push (.despawn entity)

def clear (buffer : DeferredCommands) : DeferredCommands :=
  { buffer with commands := [], within := Nat.zero_le _ }

/-- The call that submits a command. -/
def submit (buffer : DeferredCommands) :
    DeferredCommand → Except DeferredCommandError Unit × DeferredCommands
  | .spawn => buffer.trySpawn
  | .despawn entity => buffer.tryDespawn entity

theorem submit_eq (buffer : DeferredCommands) (command : DeferredCommand) :
    buffer.submit command = buffer.push command := by
  cases command with
  | spawn => rfl
  | despawn entity => rfl

/-- **A buffer** holds what was submitted, in order, up to its capacity. -/
theorem commands_submitted (buffer : DeferredCommands) (submitted : List DeferredCommand) :
    (answers submit buffer submitted).2.commands
      = buffer.commands ++ submitted.take (buffer.capacity - buffer.commands.length) := by
  induction submitted generalizing buffer with
  | nil => simp
  | cons command submitted ih =>
    rw [answers_cons, submit_eq]
    unfold push
    split
    · next hfull =>
      rw [ih, Nat.sub_eq_zero_of_le hfull, List.take_zero, List.take_zero]
    · next hroom =>
      obtain ⟨n, hn⟩ := Nat.exists_eq_add_of_lt (Nat.not_le.mp hroom)
      have hleft : buffer.capacity - buffer.commands.length = n + 1 := by omega
      simp only [ih, hleft, List.take_succ_cons, List.length_append, List.length_singleton,
        List.append_assoc, List.singleton_append]
      congr 3
      omega

end DeferredCommands

/-- Whether the allocations of one command succeed: of the live set and the entity table for a
    spawn, of the free list for a despawn. -/
structure CommandRoom where
  bits : Bool
  table : Bool
  free : Bool

inductive CommandAnswer where
  | spawned (result : Except WorldError Entity)
  | despawned (result : Except WorldError Bool)

/-- The spawn made an entity, or the despawn found its own alive and took it back. -/
def CommandAnswer.tookEffect : CommandAnswer → Bool
  | spawned (.ok _) => true
  | despawned (.ok done) => done
  | _ => false

namespace World

variable {C : Type} {Val : C → Type}

/-- `World::despawn`. -/
def despawn (room : Bool) (w : World C Val) (entity : Entity) : Bool × World C Val :=
  match w.tryDespawn room entity with
  | (.ok done, w) => (done, w)
  | (.error _, w) => (false, w)

/-- The public call a command stands for. -/
def command (w : World C Val) : DeferredCommand × CommandRoom → CommandAnswer × World C Val
  | (.spawn, room) =>
    let (result, w) := w.trySpawn room.bits room.table
    (.spawned result, w)
  | (.despawn entity, room) =>
    let (result, w) := w.tryDespawn room.free entity
    (.despawned result, w)

/-- One round of the loop of `apply`. -/
def applyCommand (run : Nat × World C Val) : DeferredCommand × CommandRoom → Nat × World C Val
  | (.spawn, room) =>
    match run.2.trySpawn room.bits room.table with
    | (.ok _, w) => (usizeSaturatingAdd run.1 1, w)
    | (.error _, w) => (run.1, w)
  | (.despawn entity, room) =>
    match run.2.despawn room.free entity with
    | (true, w) => (usizeSaturatingAdd run.1 1, w)
    | (false, w) => (run.1, w)

end World

/-- The commands with what the allocator does at each. -/
def DeferredCommands.requests (rooms : Nat → CommandRoom) (buffer : DeferredCommands) :
    List (DeferredCommand × CommandRoom) :=
  buffer.commands.mapIdx fun i command => (command, rooms i)

/-- What it answers, the buffer it leaves, and the world. -/
def DeferredCommands.apply {C : Type} {Val : C → Type} (rooms : Nat → CommandRoom)
    (buffer : DeferredCommands) (w : World C Val) : Nat × DeferredCommands × World C Val :=
  let (applied, w) := (buffer.requests rooms).foldl World.applyCommand (0, w)
  (applied, buffer.clear, w)

section Applying

variable {C : Type} {Val : C → Type} {w : World C Val}

/-! ## One by one -/

theorem World.applyCommand_eq (n : Nat) (w : World C Val)
    (request : DeferredCommand × CommandRoom) :
    World.applyCommand (n, w) request
      = (bif (w.command request).1.tookEffect then usizeSaturatingAdd n 1 else n,
          (w.command request).2) := by
  obtain ⟨command, room⟩ := request
  cases command with
  | spawn =>
    simp only [World.applyCommand, World.command]
    cases w.trySpawn room.bits room.table with
    | mk result w' => cases result <;> rfl
  | despawn entity =>
    simp only [World.applyCommand, World.command, World.despawn]
    cases w.tryDespawn room.free entity with
    | mk result w' =>
      cases result with
      | error e => rfl
      | ok done => cases done <;> rfl

/-- The loop counts the calls that took effect, as long as they can be counted. -/
theorem World.foldl_applyCommand (requests : List (DeferredCommand × CommandRoom)) (n : Nat)
    (w : World C Val) (hn : n + requests.length < 2 ^ 64) :
    requests.foldl World.applyCommand (n, w)
      = (n + (answers World.command w requests).1.countP CommandAnswer.tookEffect,
          (answers World.command w requests).2) := by
  induction requests generalizing n w with
  | nil => rfl
  | cons request requests ih =>
    rw [List.length_cons] at hn
    have hsucc : usizeSaturatingAdd n 1 = n + 1 := by
      unfold usizeSaturatingAdd
      omega
    rw [List.foldl_cons, World.applyCommand_eq, answers_cons, List.countP_cons, hsucc]
    cases (w.command request).1.tookEffect with
    | true =>
      rw [cond_true, ih _ _ (by omega), if_pos rfl]
      exact Prod.ext (by simp only; omega) rfl
    | false =>
      rw [cond_false, ih _ _ (by omega), if_neg (by simp), Nat.add_zero]

theorem DeferredCommands.length_requests (rooms : Nat → CommandRoom) (buffer : DeferredCommands) :
    (buffer.requests rooms).length = buffer.commands.length := List.length_mapIdx

/-- **Applying a buffer** is making its calls in order, counting those that took effect. -/
theorem DeferredCommands.apply_eq (rooms : Nat → CommandRoom) (buffer : DeferredCommands)
    (w : World C Val) :
    buffer.apply rooms w
      = ((answers World.command w (buffer.requests rooms)).1.countP CommandAnswer.tookEffect,
          buffer.clear, (answers World.command w (buffer.requests rooms)).2) := by
  have hsmall := buffer.small
  have hwithin := buffer.within
  unfold DeferredCommands.apply
  rw [World.foldl_applyCommand _ 0 w (by rw [buffer.length_requests]; omega), Nat.zero_add]

theorem DeferredCommands.mem_requests {rooms : Nat → CommandRoom} {buffer : DeferredCommands}
    {request : DeferredCommand × CommandRoom} (h : request ∈ buffer.requests rooms) :
    request.1 ∈ buffer.commands := by
  obtain ⟨i, hi, rfl⟩ := List.mem_mapIdx.mp h
  exact List.getElem_mem hi

end Applying

namespace World

variable {C : Type} [DecidableEq C] {Val : C → Type} {w w' : World C Val}

omit [DecidableEq C] in
theorem Inv.command (h : w.Inv) (request : DeferredCommand × CommandRoom) :
    (w.command request).2.Inv := by
  obtain ⟨command, room⟩ := request
  cases command with
  | spawn => exact h.trySpawn room.bits room.table
  | despawn entity => exact h.tryDespawn room.free entity

/-! ## Bystanders -/

/-- Alive with the components it has in `w`. -/
def Bystander (w : World C Val) (entity : Entity) (w' : World C Val) : Prop :=
  w'.IsAlive entity ∧ ∀ c, w'.get c entity = w.get c entity

theorem Bystander.refl {entity : Entity} (halive : w.IsAlive entity) : Bystander w entity w :=
  ⟨halive, fun _ => rfl⟩

theorem Bystander.trans {entity : Entity} {w'' : World C Val} (h : Bystander w entity w')
    (h' : Bystander w' entity w'') : Bystander w entity w'' :=
  ⟨h'.1, fun c => (h'.2 c).trans (h.2 c)⟩

theorem Inv.bystander_trySpawn (h : w.Inv) {entity : Entity} (halive : w.IsAlive entity)
    (bits table : Bool) : Bystander w entity (w.trySpawn bits table).2 := by
  rcases w.trySpawn_cases bits table with
    ⟨error, alive, hspawn, -⟩ | ⟨other, entities, alive, hcreate, hspawn, -⟩
  · rw [hspawn]
    exact ⟨halive, fun _ => rfl⟩
  · obtain ⟨-, hnone, hcurrent⟩ := Entities.tryCreate_spec h.entities hcreate
    rw [hspawn]
    refine ⟨?_, fun _ => rfl⟩
    -- the slot handed out was empty, and this entity's is not
    have hown := (w.entities.isAlive_iff entity).mp halive
    have hne : entity.index ≠ other.index := by
      intro hi
      rw [hi, hnone] at hown
      exact absurd hown (by simp)
    refine (entities.isAlive_iff entity).mpr ?_
    rw [hcurrent, if_neg hne]
    exact hown

omit [DecidableEq C] in
/-- Two live handles of one slot are the same. -/
theorem eq_of_index {entity other : Entity} (h : w.IsAlive entity) (h' : w.IsAlive other)
    (hi : entity.index = other.index) : entity = other := by
  have hown := (w.entities.isAlive_iff entity).mp h
  rw [hi, (w.entities.isAlive_iff other).mp h', Option.some.injEq] at hown
  cases entity
  cases other
  simp only at hi hown
  rw [hi, hown]

/-- What a despawn leaves of the components of other slots. -/
theorem Inv.get_map_removeEntity (h : w.Inv) {entity other : Entity} {entities : Entities}
    {alive : Bitset} (halive : w.IsAlive other) (hi : entity.index ≠ other.index) (c : C) :
    get ⟨entities, w.slots.map (Option.map (removeEntity other)), w.byType, alive⟩ c entity
      = w.get c entity := by
  rw [get_eq, get_eq]
  show (w.slotIndex c).bind _ = _
  cases hc : w.slotIndex c with
  | none => rfl
  | some i =>
    rw [Option.bind_some, Option.bind_some]
    obtain ⟨s, hs⟩ := (h.byType c i).mp hc
    have hafter : (w.slots.map (Option.map (removeEntity other)))[i]?
        = some (some ⟨c, (s.remove other).2⟩) := by
      rw [List.getElem?_map, hs]
      rfl
    obtain ⟨s₀, hs₀, hwf, hentry⟩ := slot_after_despawn h halive hafter
    rw [storageAt_eq_some_iff.mpr hs,
      storageAt_eq_some_iff (w := ⟨entities, _, w.byType, alive⟩).mpr hafter,
      Option.bind_some, Option.bind_some]
    rw [hs] at hs₀
    obtain rfl : s = s₀ := by
      cases hs₀
      rfl
    obtain ⟨owners, howned⟩ := h.wf hs
    obtain ⟨owners', howned'⟩ := hwf
    refine Option.ext ?_
    intro value
    rw [howned'.get_eq_some_iff, howned.get_eq_some_iff, hentry, if_neg hi]

theorem Inv.bystander_tryDespawn (h : w.Inv) {entity other : Entity} (halive : w.IsAlive entity)
    (hne : other ≠ entity) (room : Bool) : Bystander w entity (w.tryDespawn room other).2 := by
  rcases w.tryDespawn_cases room other with
    ⟨answer, -, hdespawn⟩ | ⟨entities, hdestroy, hdespawn⟩
  · rw [hdespawn]
    exact .refl halive
  · obtain ⟨-, hdone, hcurrent, -⟩ := Entities.tryDestroy_spec h.entities hdestroy
    have hother : w.IsAlive other := hdone.mp rfl
    have hi : entity.index ≠ other.index := fun hi => hne (eq_of_index halive hother hi).symm
    rw [hdespawn]
    refine ⟨?_, fun c => h.get_map_removeEntity hother hi c⟩
    refine (entities.isAlive_iff entity).mpr ?_
    rw [hcurrent rfl, if_neg hi]
    exact (w.entities.isAlive_iff entity).mp halive

theorem Inv.bystander_command (h : w.Inv) {entity : Entity} (halive : w.IsAlive entity)
    {request : DeferredCommand × CommandRoom} (hne : request.1 ≠ .despawn entity) :
    Bystander w entity (w.command request).2 := by
  obtain ⟨command, room⟩ := request
  cases command with
  | spawn => exact h.bystander_trySpawn halive room.bits room.table
  | despawn other =>
    refine h.bystander_tryDespawn halive ?_ room.free
    intro heq
    exact hne (by rw [heq])

/-- Whatever happens to its slot's neighbours, an entity no command names is left alone. -/
theorem Inv.bystander_answers (h : w.Inv) {entity : Entity} (halive : w.IsAlive entity)
    {requests : List (DeferredCommand × CommandRoom)}
    (hne : ∀ request ∈ requests, request.1 ≠ .despawn entity) :
    Bystander w entity (answers World.command w requests).2 := by
  induction requests generalizing w with
  | nil => exact .refl halive
  | cons request requests ih =>
    have hfirst := h.bystander_command halive (hne request List.mem_cons_self)
    exact hfirst.trans (ih (h.command request) hfirst.1 fun r hr =>
      hne r (List.mem_cons_of_mem _ hr))

/-! ## Newcomers -/

/-- No storage has anything at the index. -/
def Bare (w : World C Val) (index : UInt32) : Prop :=
  ∀ (i : Nat) (c : C) (s : ComponentStorage (Val c)), w.slots[i]? = some (some ⟨c, s⟩) →
    s.entry index = none

theorem Bare.get (h : w.Inv) {entity : Entity} (hbare : w.Bare entity.index) (c : C) :
    w.get c entity = none := by
  cases hc : w.slotIndex c with
  | none => exact get_of_unregistered hc entity
  | some i =>
    obtain ⟨s, hs⟩ := (h.byType c i).mp hc
    rw [get_of_storageAt hc (storageAt_eq_some_iff.mpr hs)]
    obtain ⟨owners, howned⟩ := h.wf hs
    refine Option.eq_none_iff_forall_ne_some.mpr ?_
    intro value hget
    rw [howned.get_eq_some_iff, hbare i c s hs] at hget
    exact absurd hget (by simp)

omit [DecidableEq C] in
theorem Inv.bare_spawned (h : w.Inv) {bits table : Bool} {entity : Entity}
    (hspawn : (w.trySpawn bits table).1 = .ok entity) :
    (w.trySpawn bits table).2.Bare entity.index := by
  rcases w.trySpawn_cases bits table with
    ⟨error, alive, hrefused, -⟩ | ⟨created, entities, alive, hcreate, hspawned, -⟩
  · rw [hrefused] at hspawn
    exact absurd hspawn (by simp)
  · rw [hspawned] at hspawn ⊢
    obtain rfl := Except.ok.inj hspawn
    obtain ⟨-, hnone, -⟩ := Entities.tryCreate_spec h.entities hcreate
    intro i c s hs
    refine Option.eq_none_iff_forall_ne_some.mpr ?_
    intro owned hentry
    -- an entry would be of an entity alive in the slot, which was empty
    have hcurrent := h.live (i := i) (c := c) hs _ _ _ hentry
    rw [hnone] at hcurrent
    exact absurd hcurrent (by simp)

omit [DecidableEq C] in
theorem Inv.bare_command (h : w.Inv) {index : UInt32} (hbare : w.Bare index)
    (request : DeferredCommand × CommandRoom) : (w.command request).2.Bare index := by
  obtain ⟨command, room⟩ := request
  cases command with
  | spawn =>
    show (w.trySpawn room.bits room.table).2.Bare index
    rcases w.trySpawn_cases room.bits room.table with
      ⟨error, alive, hspawn, -⟩ | ⟨created, entities, alive, -, hspawn, -⟩
    · rw [hspawn]
      exact hbare
    · rw [hspawn]
      exact hbare
  | despawn entity =>
    show (w.tryDespawn room.free entity).2.Bare index
    rcases w.tryDespawn_cases room.free entity with
      ⟨answer, -, hdespawn⟩ | ⟨entities, hdestroy, hdespawn⟩
    · rw [hdespawn]
      exact hbare
    · obtain ⟨-, hdone, -⟩ := Entities.tryDestroy_spec h.entities hdestroy
      rw [hdespawn]
      intro i c s hs
      obtain ⟨s₀, hs₀, -, hentry⟩ := slot_after_despawn h (hdone.mp rfl) hs
      rw [hentry, hbare i c s₀ hs₀, ite_self]

omit [DecidableEq C] in
theorem Inv.bare_answers (h : w.Inv) {index : UInt32} (hbare : w.Bare index)
    (requests : List (DeferredCommand × CommandRoom)) :
    (answers World.command w requests).2.Bare index := by
  induction requests generalizing w with
  | nil => exact hbare
  | cons request requests ih => exact ih (h.command request) (h.bare_command hbare request)

omit [DecidableEq C] in
theorem Inv.bare_created (h : w.Inv) {entity : Entity}
    {requests : List (DeferredCommand × CommandRoom)}
    (hmade : .spawned (.ok entity) ∈ (answers World.command w requests).1) :
    (answers World.command w requests).2.Bare entity.index := by
  induction requests generalizing w with
  | nil => exact absurd hmade List.not_mem_nil
  | cons request requests ih =>
    rw [answers_cons] at hmade ⊢
    rcases List.mem_cons.mp hmade with hfirst | hrest
    · refine (h.command request).bare_answers ?_ requests
      obtain ⟨command, room⟩ := request
      cases command with
      | spawn => exact h.bare_spawned (CommandAnswer.spawned.inj hfirst).symm
      | despawn other => exact absurd hfirst (by simp [World.command])
    · exact ih (h.command request) hrest

/-- A batch is a run of spawns and despawns. -/
theorem Reachable.answers (hw : Reachable w)
    (requests : List (DeferredCommand × CommandRoom)) :
    Reachable (answers World.command w requests).2 := by
  induction requests generalizing w with
  | nil => exact hw
  | cons request requests ih =>
    refine ih (hw.tail ⟨(), ?_⟩)
    obtain ⟨command, room⟩ := request
    cases command with
    | spawn => exact .trySpawn w room.bits room.table
    | despawn entity => exact .tryDespawn w room.free entity

/-- **Deferred commands touch only what they name.** Applying a buffer to a reachable world is
    making its calls in order; it returns how many took effect and empties the buffer. An entity
    that was alive and that no despawn names by its very handle is still alive, with its
    components as they were, and what the batch created has none. -/
theorem deferred_commands (hw : Reachable w) (rooms : Nat → CommandRoom)
    (buffer : DeferredCommands) :
    buffer.apply rooms w
      = ((answers World.command w (buffer.requests rooms)).1.countP CommandAnswer.tookEffect,
          buffer.clear, (answers World.command w (buffer.requests rooms)).2) ∧
      (∀ entity, w.IsAlive entity → .despawn entity ∉ buffer.commands →
        (buffer.apply rooms w).2.2.IsAlive entity ∧
          ∀ c, (buffer.apply rooms w).2.2.get c entity = w.get c entity) ∧
      ∀ entity, .spawned (.ok entity) ∈ (answers World.command w (buffer.requests rooms)).1 →
        ∀ c, (buffer.apply rooms w).2.2.get c entity = none := by
  refine ⟨buffer.apply_eq rooms w, ?_, ?_⟩
  · intro entity halive hunnamed
    rw [buffer.apply_eq rooms w]
    refine hw.inv.bystander_answers halive ?_
    intro request hrequest hnamed
    exact hunnamed (hnamed ▸ DeferredCommands.mem_requests hrequest)
  · intro entity hmade c
    rw [buffer.apply_eq rooms w]
    exact (hw.inv.bare_created hmade).get (Reachable.answers hw _).inv c

/-- A buffer for two commands is given a handle no world gave out and two spawns. -/
theorem deferred_commands_lone : ∃ buffer : DeferredCommands,
    DeferredCommands.tryWithCapacity true 2 = .ok buffer ∧
      let batch := (answers DeferredCommands.submit buffer [.despawn ⟨0, 1⟩, .spawn, .spawn]).2
      batch.commands = [.despawn ⟨0, 1⟩, .spawn] ∧
        (batch.apply (fun _ => ⟨true, true, true⟩) lone).2.2.IsAlive ⟨0, 0⟩ ∧
        ∀ c, (batch.apply (fun _ => ⟨true, true, true⟩) lone).2.2.get c ⟨0, 0⟩
          = lone.get c ⟨0, 0⟩ := by
  refine ⟨_, rfl, ?_⟩
  intro batch
  have hbatch : batch.commands = [.despawn ⟨0, 1⟩, .spawn] :=
    DeferredCommands.commands_submitted _ _
  have hunnamed : .despawn ⟨0, 0⟩ ∉ batch.commands := by
    rw [hbatch]
    decide
  exact ⟨hbatch, (deferred_commands reachable_lone (fun _ => ⟨true, true, true⟩) batch).2.1
    ⟨0, 0⟩ (by decide) hunnamed⟩

end World

end Ecs
end EngineKit
