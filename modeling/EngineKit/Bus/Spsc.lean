import EngineKit.Bus.Ring
import EngineKit.Lib.Reach

/-!
# One producer, one consumer

`SpscRing::push` and `SpscRing::pop` on two threads, one atomic step at a time: each load, each
slot access and each store of a counter. A thread is at a place of its call with what it has
loaded so far, which the other thread may since have made stale.

`pushed` and `popped` are the history, `fullSeen` and `emptySeen` whether the ring was full, or
empty, at some moment since the call in progress began. `Spsc.Ok` is what makes the staleness
harmless: a tail the producer loaded is the tail, for nobody else moves it, and the head it
compared with can since only have moved on and made more room; and the same for the consumer.

The counters of the ring wrap, so they say too little by themselves: `headCount` and the length of
`pushed` are what they would be if they did not, and the counters are those two, reduced. What a
thread has found out but not yet acted on is a number it holds in reserve (`reserved`), and the two
inequalities `room` and `values` have that number in them; without it the check a thread made some
steps ago would be of no use now. Each is kept by the other thread's steps because those only make
it easier.
-/

set_option autoImplicit false

namespace EngineKit
namespace Bus

open Lib

variable {w : PointerWidth} {T : Type}

/-- The places of a `push`. -/
inductive Producer (w : PointerWidth) (T : Type) where
  | idle
  | called (value : T)
  | tailLoaded (value : T) (tail : w.Usize)
  | checked (value : T) (tail : w.Usize)
  | written (value : T) (tail : w.Usize)
  | stored
  | full (value : T)
deriving DecidableEq

/-- The places of a `pop`. What is read from a cell without a value is `none`. -/
inductive Consumer (w : PointerWidth) (T : Type) where
  | idle
  | called
  | headLoaded (head : w.Usize)
  | checked (head : w.Usize)
  | taken (cell : Option T) (head : w.Usize)
  | stored (cell : Option T)
  | empty
deriving DecidableEq

structure Spsc (w : PointerWidth) (T : Type) where
  ring : SpscRing w T
  producer : Producer w T
  consumer : Consumer w T
  pushed : List T
  popped : List T
  fullSeen : Bool
  emptySeen : Bool

namespace Spsc

def start (ring : SpscRing w T) : Spsc w T := ⟨ring, .idle, .idle, [], [], false, false⟩

/-- The producer's next step. -/
def produce (s : Spsc w T) : Spsc w T :=
  match s.producer with
  | .idle => s
  | .called value => { s with producer := .tailLoaded value s.ring.tail }
  | .tailLoaded value tail =>
    if s.ring.capacity ≤ tail - s.ring.head then { s with producer := .full value }
    else { s with producer := .checked value tail }
  | .checked value tail =>
    { s with
      ring := { s.ring with buf := s.ring.buf.set (s.ring.slot tail) (some value) }
      producer := .written value tail }
  | .written value tail =>
    { s with
      ring := { s.ring with tail := tail + 1 }
      producer := .stored
      pushed := s.pushed ++ [value] }
  | .stored => { s with producer := .idle }
  | .full _ => { s with producer := .idle }

/-- The consumer's next step. -/
def consume (s : Spsc w T) : Spsc w T :=
  match s.consumer with
  | .idle => s
  | .called => { s with consumer := .headLoaded s.ring.head }
  | .headLoaded head =>
    if head = s.ring.tail then { s with consumer := .empty }
    else { s with consumer := .checked head }
  | .checked head =>
    { s with
      ring := { s.ring with buf := s.ring.buf.set (s.ring.slot head) none }
      consumer := .taken s.ring.buf[s.ring.slot head]?.join head }
  | .taken cell head =>
    { s with ring := { s.ring with head := head + 1 }, consumer := .stored cell }
  | .stored cell => { s with consumer := .idle, popped := s.popped ++ cell.toList }
  | .empty => { s with consumer := .idle }

/-- A moment passes. -/
def observe (s : Spsc w T) : Spsc w T :=
  { s with
    fullSeen := s.fullSeen || s.ring.len == s.ring.capacity
    emptySeen := s.emptySeen || s.ring.isEmpty }

inductive Act (T : Type) where
  | push (value : T)
  | producer
  | pop
  | consumer

/-- A thread calls again only when its last call has returned. -/
def steps (s : Spsc w T) : Act T → Spsc w T → Prop
  | .push value, t =>
    s.producer = .idle ∧ t = observe { s with producer := .called value, fullSeen := false }
  | .producer, t => t = s.produce.observe
  | .pop, t => s.consumer = .idle ∧ t = observe { s with consumer := .called, emptySeen := false }
  | .consumer, t => t = s.consume.observe

end Spsc

/-! ## What each thread knows -/

namespace Producer

/-- The tail it has loaded. -/
def tail? : Producer w T → Option w.Usize
  | .tailLoaded _ tail | .checked _ tail | .written _ tail => some tail
  | _ => none

/-- The cells it has found free and not yet published. -/
def reserved : Producer w T → Nat
  | .checked _ _ | .written _ _ => 1
  | _ => 0

/-- What it has written past the tail. -/
def pending : Producer w T → List T
  | .written value _ => [value]
  | _ => []

end Producer

namespace Consumer

/-- The head it has loaded. -/
def head? : Consumer w T → Option w.Usize
  | .headLoaded head | .checked head | .taken _ head => some head
  | _ => none

/-- The values it has found and not yet given up the cells of. -/
def reserved : Consumer w T → Nat
  | .checked _ | .taken _ _ => 1
  | _ => 0

/-- The values it has moved out of a cell behind the head. -/
def moved : Consumer w T → Nat
  | .taken _ _ => 1
  | _ => 0

/-- The values it has given up the cell of and not yet returned. -/
def unreturned : Consumer w T → Nat
  | .stored _ => 1
  | _ => 0

/-- What it has read. -/
def cell? : Consumer w T → Option (Option T)
  | .taken cell _ | .stored cell => some cell
  | _ => none

end Consumer

namespace Spsc

/-- How often the head was stored. -/
def headCount (s : Spsc w T) : Nat := s.popped.length + s.consumer.unreturned

structure Ok (s : Spsc w T) : Prop where
  sized : s.ring.Sized
  head : s.ring.head = BitVec.ofNat w.bits s.headCount
  tail : s.ring.tail = BitVec.ofNat w.bits s.pushed.length
  room : s.pushed.length + s.producer.reserved ≤ s.headCount + s.ring.buf.length
  values : s.headCount + s.consumer.reserved ≤ s.pushed.length
  cells : Cells s.ring.buf (s.headCount + s.consumer.moved)
    (s.pushed.drop (s.headCount + s.consumer.moved) ++ s.producer.pending)
  loadedTail (tail : w.Usize) : s.producer.tail? = some tail → tail = s.ring.tail
  loadedHead (head : w.Usize) : s.consumer.head? = some head → head = s.ring.head
  inOrder : s.popped <+: s.pushed
  oldest (cell : Option T) : s.consumer.cell? = some cell →
    ∃ value, cell = some value ∧ s.pushed[s.popped.length]? = some value

section Ok

variable {s t : Spsc w T}

/-- A new ring is empty, and nobody has begun. -/
theorem Ok.start {ring : SpscRing w T} (h : ring.Holds 0 []) : (Spsc.start ring).Ok where
  sized := h.sized
  head := h.head
  tail := h.tail
  room := Nat.zero_le _
  values := Nat.zero_le _
  cells := h.cells
  loadedTail _ h := absurd h (by simp [Spsc.start, Producer.tail?])
  loadedHead _ h := absurd h (by simp [Spsc.start, Consumer.head?])
  inOrder := List.prefix_rfl
  oldest _ h := absurd h (by simp [Spsc.start, Consumer.cell?])

/-- What has been seen is no part of the ring. -/
theorem Ok.observe (h : s.Ok) : s.observe.Ok := { h with }

/-- A value that is moved out of its cell is one the consumer has found. -/
theorem moved_le_reserved (c : Consumer w T) : c.moved ≤ c.reserved := by
  cases c <;> simp [Consumer.moved, Consumer.reserved]

/-- The cell the producer is about to write. -/
theorem Ok.free (h : s.Ok) {value : T} {tail : w.Usize} (hat : s.producer = .checked value tail) :
    Cells (s.ring.buf.set (s.ring.slot tail) (some value)) (s.headCount + s.consumer.moved)
        (s.pushed.drop (s.headCount + s.consumer.moved) ++ [value]) ∧
      s.ring.buf[s.ring.slot tail]? = some none := by
  have hroom := h.room
  have hvalues := h.values
  have hmoved := moved_le_reserved s.consumer
  have hcells := h.cells
  have htail := h.loadedTail tail (by rw [hat]; rfl)
  rw [hat] at hroom hcells
  simp only [Producer.reserved, Producer.pending, List.append_nil] at hroom hcells
  have hslot : s.ring.slot tail = s.pushed.length % s.ring.buf.length := by
    rw [htail, h.tail, h.sized.slot_eq]
  have hlen := List.length_drop (i := s.headCount + s.consumer.moved) (l := s.pushed)
  have hlt : (s.pushed.drop (s.headCount + s.consumer.moved)).length < s.ring.buf.length := by omega
  have hput := hcells.put hlt value
  have hfree := hcells.free hlt
  have hcell : s.headCount + s.consumer.moved +
      (s.pushed.drop (s.headCount + s.consumer.moved)).length = s.pushed.length := by omega
  rw [hcell, ← hslot] at hput hfree
  exact ⟨hput, hfree⟩

/-- The cell the consumer is about to read. -/
theorem Ok.front (h : s.Ok) {head : w.Usize} (hat : s.consumer = .checked head) :
    ∃ value, s.pushed[s.popped.length]? = some value ∧
      s.ring.buf[s.ring.slot head]? = some (some value) ∧
      Cells (s.ring.buf.set (s.ring.slot head) none) (s.headCount + 1)
        (s.pushed.drop (s.headCount + 1) ++ s.producer.pending) := by
  have hvalues := h.values
  have hcells := h.cells
  have hhead := h.loadedHead head (by rw [hat]; rfl)
  rw [hat] at hvalues hcells
  simp only [Consumer.reserved, Consumer.moved, Nat.add_zero] at hvalues hcells
  have hcount : s.headCount = s.popped.length := by rw [headCount, hat]; rfl
  have hslot : s.ring.slot head = s.headCount % s.ring.buf.length := by
    rw [hhead, h.head, h.sized.slot_eq]
  have hlt : s.headCount < s.pushed.length := by omega
  rw [List.drop_eq_getElem_cons hlt, List.cons_append] at hcells
  rw [hslot, ← hcount]
  exact ⟨s.pushed[s.headCount], List.getElem?_eq_getElem hlt, hcells.front, hcells.take⟩

/-- No value is moved that was not pushed. -/
theorem Ok.moved_le (h : s.Ok) : s.headCount + s.consumer.moved ≤ s.pushed.length :=
  (Nat.add_le_add_left (moved_le_reserved s.consumer) _).trans h.values

/-- What is written and published, or about to be, is in the cells. -/
theorem Ok.published (h : s.Ok) : Cells s.ring.buf (s.headCount + s.consumer.moved)
    ((s.pushed ++ s.producer.pending).drop (s.headCount + s.consumer.moved)) := by
  rw [List.drop_append_of_le_length h.moved_le]
  exact h.cells

/-- Finding the ring not full is finding room. -/
theorem Ok.hasRoom (h : s.Ok) (hroom : ¬ s.ring.capacity ≤ s.ring.tail - s.ring.head) :
    s.pushed.length + 1 ≤ s.headCount + s.ring.buf.length := by
  have hle := (Nat.le_add_right _ _).trans h.room
  have hvalues := (Nat.le_add_right _ _).trans h.values
  rw [h.head, h.tail, h.sized.full_iff hvalues (by omega)] at hroom
  omega

/-- A difference of the counters that reaches the capacity is the capacity. -/
theorem Ok.isFull (h : s.Ok) (hfull : s.ring.capacity ≤ s.ring.tail - s.ring.head) :
    s.ring.len = s.ring.capacity := by
  have hle := (Nat.le_add_right _ _).trans h.room
  have hvalues := (Nat.le_add_right _ _).trans h.values
  have hlt := h.sized.lt
  refine BitVec.eq_of_toNat_eq ?_
  rw [h.head, h.tail, h.sized.full_iff hvalues (by omega)] at hfull
  rw [SpscRing.len, h.sized.toNat_capacity, h.head, h.tail,
    toNat_sub_counter hvalues (by omega), hfull]

/-- Finding the ring not empty is finding a value. -/
theorem Ok.hasValue (h : s.Ok) (hsome : ¬ s.ring.head = s.ring.tail) :
    s.headCount + 1 ≤ s.pushed.length := by
  have hle := (Nat.le_add_right _ _).trans h.room
  have hvalues := (Nat.le_add_right _ _).trans h.values
  have hlt := h.sized.lt
  rw [h.head, h.tail, counter_eq_iff hvalues (by omega)] at hsome
  omega

/-- **The producer's steps.** -/
theorem Ok.produce (h : s.Ok) : s.produce.Ok := by
  obtain ⟨ring, producer, consumer, pushed, popped, fullSeen, emptySeen⟩ := s
  -- Two of the places matter: where the ring is compared with its capacity, and where the tail is
  -- stored.
  cases producer with
  | idle => exact h
  | called value =>
    exact { h with loadedTail := by rintro tail ⟨⟩; rfl }
  | tailLoaded value tail =>
    have htail : tail = ring.tail := h.loadedTail tail rfl
    simp only [Spsc.produce]
    split
    · exact { h with loadedTail := by rintro _ ⟨⟩ }
    · next hroom =>
      refine { h with loadedTail := by rintro _ ⟨⟩; exact htail, room := ?_ }
      exact h.hasRoom (htail ▸ hroom)
  | checked value tail =>
    obtain ⟨hcells, -⟩ := h.free rfl
    exact { h with
      sized := h.sized.congr List.length_set rfl
      room := h.room.trans_eq (congrArg _ List.length_set.symm)
      cells := hcells
      loadedTail := by rintro _ ⟨⟩; exact h.loadedTail tail rfl }
  | written value tail =>
    have htail : tail = ring.tail := h.loadedTail tail rfl
    have hlen : (pushed ++ [value]).length = pushed.length + 1 := List.length_append
    refine { h with
      sized := h.sized.congr rfl rfl
      tail := ?_
      room := hlen ▸ h.room
      values := hlen ▸ Nat.le_succ_of_le h.values
      cells := ?_
      loadedTail := by rintro _ ⟨⟩
      inOrder := h.inOrder.trans (List.prefix_append _ _)
      oldest := ?_ }
    · show tail + 1 = BitVec.ofNat w.bits (pushed ++ [value]).length
      rw [htail, h.tail, hlen]
      exact (BitVec.ofNat_add _ _).symm
    · show Cells _ _ (List.drop _ (pushed ++ [value]) ++ [])
      rw [List.append_nil]
      exact h.published
    · intro cell hcell
      obtain ⟨value', hvalue, holdest⟩ := h.oldest cell hcell
      refine ⟨value', hvalue, ?_⟩
      show (pushed ++ [value])[popped.length]? = _
      rw [List.getElem?_append_left (List.getElem?_eq_some_iff.mp holdest).1]
      exact holdest
  | stored => exact { h with }
  | full value => exact { h with }

/-- **The consumer's steps.** -/
theorem Ok.consume (h : s.Ok) : s.consume.Ok := by
  obtain ⟨ring, producer, consumer, pushed, popped, fullSeen, emptySeen⟩ := s
  -- The same for the consumer: where it finds a value, and where the head is stored.
  cases consumer with
  | idle => exact h
  | called =>
    exact { h with loadedHead := by rintro head ⟨⟩; rfl }
  | headLoaded head =>
    have hhead : head = ring.head := h.loadedHead head rfl
    simp only [Spsc.consume]
    split
    · exact { h with loadedHead := by rintro _ ⟨⟩ }
    · next hsome =>
      refine { h with loadedHead := by rintro _ ⟨⟩; exact hhead, values := ?_ }
      exact h.hasValue (hhead ▸ hsome)
  | checked head =>
    obtain ⟨value, holdest, hcell, hcells⟩ := h.front rfl
    exact { h with
      sized := h.sized.congr List.length_set rfl
      room := h.room.trans_eq (congrArg _ List.length_set.symm)
      cells := hcells
      loadedHead := by rintro _ ⟨⟩; exact h.loadedHead head rfl
      oldest := by
        rintro _ ⟨⟩
        exact ⟨value, by rw [hcell, Option.join_some], holdest⟩ }
  | taken cell head =>
    have hhead : head = ring.head := h.loadedHead head rfl
    exact { h with
      sized := h.sized.congr rfl rfl
      head := by
        show head + 1 = BitVec.ofNat w.bits (popped.length + 1)
        rw [hhead, h.head]
        exact (BitVec.ofNat_add _ _).symm
      room := by
        have hroom : pushed.length + producer.reserved ≤ popped.length + ring.buf.length := h.room
        show pushed.length + producer.reserved ≤ popped.length + 1 + ring.buf.length
        omega
      loadedHead := by rintro _ ⟨⟩ }
  | stored cell =>
    obtain ⟨value, rfl, holdest⟩ := h.oldest cell rfl
    have hcount : (popped ++ [value]).length = popped.length + 1 := List.length_append
    exact { h with
      head := h.head.trans (congrArg _ hcount.symm)
      room := h.room.trans_eq (congrArg (· + ring.buf.length) hcount.symm)
      values := by
        show (popped ++ [value]).length ≤ pushed.length
        rw [hcount]
        exact h.values
      cells := by
        show Cells ring.buf (popped ++ [value]).length
          (pushed.drop (popped ++ [value]).length ++ producer.pending)
        rw [hcount]
        exact h.cells
      inOrder := prefix_concat h.inOrder holdest
      oldest := by rintro _ ⟨⟩ }
  | empty => exact { h with }

/-- **Any step** of either. -/
theorem Ok.step {a : Act T} (h : s.Ok) (hstep : steps s a t) : t.Ok := by
  cases a with
  -- A call begins where the last one has returned.
  | push value =>
    obtain ⟨hidle, rfl⟩ := hstep
    obtain ⟨ring, producer, consumer, pushed, popped, fullSeen, emptySeen⟩ := s
    obtain rfl : producer = .idle := hidle
    exact { h with loadedTail := by rintro _ ⟨⟩ }
  | producer =>
    obtain rfl := hstep
    exact h.produce.observe
  | pop =>
    obtain ⟨hidle, rfl⟩ := hstep
    obtain ⟨ring, producer, consumer, pushed, popped, fullSeen, emptySeen⟩ := s
    obtain rfl : consumer = .idle := hidle
    exact { h with loadedHead := by rintro _ ⟨⟩ }
  | consumer =>
    obtain rfl := hstep
    exact h.consume.observe

end Ok

/-! ## What a call that fails has seen

A failing call is no mistake if the ring was full, or empty, at some moment of it. `fullSeen` and
`emptySeen` are set by every step for as long as the call lasts, so it is enough to find the moment
at which it is decided.
-/

/-- Who is about to fail has seen why. -/
structure Seen (s : Spsc w T) : Prop where
  full (value : T) : s.producer = .full value → s.fullSeen = true
  empty : s.consumer = .empty → s.emptySeen = true

section Seen

variable {s t : Spsc w T}

/-- The ring is full when the producer finds it full: the tail it loaded is the tail. -/
theorem Seen.produce (h : s.Seen) (hok : s.Ok) : s.produce.observe.Seen := by
  obtain ⟨ring, producer, consumer, pushed, popped, fullSeen, emptySeen⟩ := s
  have hempty {b : Bool} : consumer = .empty → (emptySeen || b) = true := by
    intro hat
    rw [show emptySeen = true from h.empty hat]
    exact Bool.true_or b
  -- One step can find the ring full, and it does so in the state that is observed.
  cases producer with
  | tailLoaded value tail =>
    have htail : tail = ring.tail := hok.loadedTail tail rfl
    simp only [Spsc.produce]
    split
    · next hfull =>
      refine ⟨?_, hempty⟩
      intro _ _
      have hlen : ring.len = ring.capacity := hok.isFull (htail ▸ hfull)
      show (fullSeen || ring.len == ring.capacity) = true
      rw [hlen, beq_self_eq_true, Bool.or_true]
    · exact ⟨nofun, hempty⟩
  | idle | called | checked | written | stored | full => exact ⟨nofun, hempty⟩

/-- And empty when the consumer finds it empty. -/
theorem Seen.consume (h : s.Seen) (hok : s.Ok) : s.consume.observe.Seen := by
  obtain ⟨ring, producer, consumer, pushed, popped, fullSeen, emptySeen⟩ := s
  have hfull {b : Bool} (value : T) : producer = .full value → (fullSeen || b) = true := by
    intro hat
    rw [show fullSeen = true from h.full value hat]
    exact Bool.true_or b
  cases consumer with
  -- And one can find it empty.
  | headLoaded head =>
    have hhead : head = ring.head := hok.loadedHead head rfl
    simp only [Spsc.consume]
    split
    · next hempty =>
      refine ⟨hfull, ?_⟩
      intro _
      show (emptySeen || ring.head == ring.tail) = true
      rw [← hhead, hempty, beq_self_eq_true, Bool.or_true]
    · exact ⟨hfull, nofun⟩
  | idle | called | checked | taken | stored | empty => exact ⟨hfull, nofun⟩

/-- **What failing calls have seen**, over any step. -/
theorem Seen.step {a : Act T} (h : s.Seen) (hok : s.Ok) (hstep : steps s a t) : t.Seen := by
  cases a with
  | push value =>
    obtain ⟨-, rfl⟩ := hstep
    refine ⟨nofun, ?_⟩
    intro hat
    show (s.emptySeen || _) = true
    rw [h.empty hat, Bool.true_or]
  | producer =>
    obtain rfl := hstep
    exact h.produce hok
  | pop =>
    obtain ⟨-, rfl⟩ := hstep
    refine ⟨?_, nofun⟩
    intro value hat
    show (s.fullSeen || _) = true
    rw [h.full value hat, Bool.true_or]
  | consumer =>
    obtain rfl := hstep
    exact h.consume hok

end Seen

/-- **A bounded queue.** On a new ring, after any steps of the two threads in any order: what was
    popped is the first of what was pushed, and the value a pop is about to return is the next; the
    cell about to be written has no value, and the cell about to be read has the next; a push that
    fails has seen the ring full, and a pop that finds nothing has seen it empty. -/
theorem fifo {room : Bool} {capacity : w.Usize} {ring : SpscRing w T} {t : Spsc w T}
    (hring : SpscRing.tryWithCapacity room capacity = .ok ring)
    (hr : Reaches steps (start ring) t) :
    t.popped <+: t.pushed ∧
      (∀ cell, t.consumer = .stored cell →
        ∃ value, cell = some value ∧ t.pushed[t.popped.length]? = some value) ∧
      (∀ value tail, t.producer = .checked value tail →
        t.ring.buf[t.ring.slot tail]? = some none) ∧
      (∀ head, t.consumer = .checked head →
        ∃ value, t.ring.buf[t.ring.slot head]? = some (some value) ∧
          t.pushed[t.popped.length]? = some value) ∧
      (∀ value, t.producer = .full value → t.fullSeen = true) ∧
      (t.consumer = .empty → t.emptySeen = true) := by
  obtain ⟨hok, hseen⟩ : t.Ok ∧ t.Seen := by
    refine hr.invariant (fun s => s.Ok ∧ s.Seen) ⟨.start (SpscRing.tryWithCapacity_spec hring).1,
      nofun, nofun⟩ ?_
    rintro s a s' ⟨hok, hseen⟩ hstep
    exact ⟨hok.step hstep, hseen.step hok hstep⟩
  refine ⟨hok.inOrder, ?_, ?_, ?_, hseen.full, hseen.empty⟩
  · intro cell hat
    exact hok.oldest cell (by rw [hat]; rfl)
  · intro value tail hat
    exact (hok.free hat).2
  · intro head hat
    obtain ⟨value, holdest, hcell, -⟩ := hok.front hat
    exact ⟨value, hcell, holdest⟩

/-- A thread takes so many steps alone. -/
theorem reaches_iterate {a : Act T} {f : Spsc w T → Spsc w T} (hf : ∀ s, steps s a (f s))
    (s : Spsc w T) (n : Nat) : Reaches steps s (f^[n] s) := by
  induction n generalizing s with
  | zero => exact .refl
  | succ n ih => exact .head ⟨a, hf s⟩ (ih (f s))

/-- A push of 7, and a pop up to its return. -/
theorem fifo_seven :
    ∃ (ring : SpscRing ⟨16, by decide⟩ Nat) (t : Spsc ⟨16, by decide⟩ Nat),
      SpscRing.tryWithCapacity true 2 = .ok ring ∧ Reaches steps (start ring) t ∧
      t.consumer = .stored (some 7) ∧ t.pushed[t.popped.length]? = some 7 := by
  let ring : SpscRing ⟨16, by decide⟩ Nat := ⟨[none, none], 1, 0, 0⟩
  have hring : SpscRing.tryWithCapacity true 2 = .ok ring := rfl
  let called : Spsc ⟨16, by decide⟩ Nat :=
    observe { start ring with producer := .called 7, fullSeen := false }
  let pushed := (fun s => s.produce.observe)^[5] called
  let asked := observe { pushed with consumer := .called, emptySeen := false }
  have hidle : pushed.consumer = .idle := by decide
  have hr : Reaches steps (start ring) ((fun s => s.consume.observe)^[4] asked) :=
    (((Relation.ReflTransGen.single ⟨.push 7, rfl, rfl⟩).trans
      (reaches_iterate (a := .producer) (fun _ => rfl) called 5)).tail ⟨.pop, hidle, rfl⟩).trans
      (reaches_iterate (a := .consumer) (fun _ => rfl) asked 4)
  have hat : ((fun s => s.consume.observe)^[4] asked).consumer = .stored (some 7) := by decide
  obtain ⟨value, hvalue, holdest⟩ := (fifo hring hr).2.1 _ hat
  obtain rfl : 7 = value := Option.some.inj hvalue
  exact ⟨ring, _, hring, hr, hat, holdest⟩

end Spsc

end Bus
end EngineKit
