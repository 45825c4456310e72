import EngineKit.Platform.IoUring

/-!
# Whose buffer is it

While a read is on its way its buffer is pending; every completion the ring keeps or has handed out
comes with the buffer of its own read, cut to what that read wrote; and each buffer is in one place
(`RingSystem.Lawful`).

`try_complete` takes the first pending read with the tag posted. When two pending reads bear one
tag, and they complete in another order than they stand in, that is the other read
(`Mismatches`): its buffer is cut to the wrong result and handed out while the kernel still writes
to it. `buffers_lawful_iff` says the law holds as long as this does not happen. It cannot when no
read is submitted under the tag of a pending one (`lawful_of_fresh_tags`).

`Lawful` is what is promised and `Inv` what makes it last. The promise says that every read in the
kernel's hands has its buffer pending; the invariant adds under which tag and of what length, for
those on their way (`asked`), and what has been written, for those that are posted (`posted`). Reads
are numbered, and the two permutations say that each number is in one place: with the program, or in
the kernel's hands and pending.

An exact condition could be asked of the next call only, since a buffer that is with the wrong read
stays there. This is why `buffers_lawful_iff` is about guarded runs and one call more.
-/

set_option autoImplicit false

namespace EngineKit
namespace Platform

open Lib

namespace RingSystem

variable {s t : RingSystem}

/-- **The law.** -/
structure Lawful (s : RingSystem) : Prop where
  owned : ∀ entry ∈ s.sq ++ s.inFlight,
    ∃ request ∈ s.ring.pending, request.buffer.read = entry.addr
  matched : ∀ x ∈ s.ring.completed ++ s.released, x.2.read = x.1.read ∧ x.2.bytes = x.1.bytes
  books : (s.ring.pending.map (fun request => request.buffer.read) ++
    (s.ring.completed ++ s.released).map fun x => x.2.read).Perm (List.range s.reads)

/-- The call takes the buffer of another read than the one whose completion it takes. -/
def Mismatches (s : RingSystem) : RingCall → Prop
  | .tryComplete => ∃ completion cq request, s.cq = completion :: cq ∧
      s.ring.pending.find? (fun request => request.userData == completion.entry.userData)
        = some request ∧ request.buffer.read ≠ completion.read
  | _ => False

/-- **The invariant.** A read on its way, or posted and not yet taken, is pending under its own
    tag, and what it wrote is in its buffer. -/
structure Inv (s : RingSystem) : Prop where
  books : (s.ring.pending.map (fun request => request.buffer.read) ++
    (s.ring.completed ++ s.released).map fun x => x.2.read).Perm (List.range s.reads)
  outstanding : ((s.sq ++ s.inFlight).map (fun entry => entry.addr) ++
    s.cq.map fun completion => completion.read).Perm
      (s.ring.pending.map fun request => request.buffer.read)
  asked : ∀ entry ∈ s.sq ++ s.inFlight, ∃ request ∈ s.ring.pending,
    request.buffer.read = entry.addr ∧ request.userData = entry.userData ∧
      entry.len.toNat = request.buffer.bytes.length
  posted : ∀ completion ∈ s.cq, ∃ request ∈ s.ring.pending,
    request.buffer.read = completion.read ∧ request.userData = completion.entry.userData ∧
      completion.written <+: request.buffer.bytes ∧
      (0 ≤ completion.entry.result →
        completion.entry.result.toInt = completion.written.length)
  matched : ∀ x ∈ s.ring.completed ++ s.released, x.2.read = x.1.read ∧ x.2.bytes = x.1.bytes

/-- **The invariant is the law and more.** -/
theorem Inv.lawful (h : s.Inv) : s.Lawful := by
  refine ⟨fun entry hentry => ?_, h.matched, h.books⟩
  obtain ⟨request, hmem, hread, -⟩ := h.asked entry hentry
  exact ⟨request, hmem, hread⟩

/-- A new ring has no reads. -/
theorem Inv.new (sqEntries cqEntries : UInt32) : (new sqEntries cqEntries).Inv :=
  ⟨.refl [], .refl [], List.forall_mem_nil _, List.forall_mem_nil _, List.forall_mem_nil _⟩

/-- No buffer is in two places. -/
theorem Inv.nodup (h : s.Inv) :
    (s.ring.pending.map (fun request => request.buffer.read) ++
      (s.ring.completed ++ s.released).map fun x => x.2.read).Nodup :=
  h.books.nodup_iff.mpr List.nodup_range

/-- No read is in the kernel's hands twice. -/
theorem Inv.nodup_outstanding (h : s.Inv) :
    ((s.sq ++ s.inFlight).map (fun entry => entry.addr) ++
      s.cq.map fun completion => completion.read).Nodup :=
  h.outstanding.nodup_iff.mpr (List.nodup_append.mp h.nodup).1

/-- A pending read is known by its buffer. -/
theorem Inv.unique (h : s.Inv) {request request' : PendingRead} (hr : request ∈ s.ring.pending)
    (hr' : request' ∈ s.ring.pending) (hread : request.buffer.read = request'.buffer.read) :
    request = request' :=
  List.inj_on_of_nodup_map (List.nodup_append.mp h.nodup).1 hr hr' hread

/-! ## Submitting -/

/-- **A submission** makes a buffer pending and a read with it. -/
theorem Inv.submitRead (h : s.Inv) {fd : Int32} {buffer : List UInt8} {offset userData : UInt64} :
    (s.run (.submitRead fd buffer offset userData)).Inv := by
  -- Nothing is submitted, or one read more, with its buffer.
  rcases s.submitRead_cases fd buffer offset userData with heq | ⟨len, hlen, heq⟩
  · rw [heq]
    exact h
  rw [heq]
  have hgrow : ∀ request ∈ s.ring.pending,
      request ∈ s.ring.pending ++ [⟨userData, ⟨s.reads, buffer⟩⟩] :=
    fun request hmem => List.mem_append_left _ hmem
  refine ⟨?_, ?_, ?_, ?_, h.matched⟩
  · show ((s.ring.pending ++ [_]).map _ ++ _).Perm (List.range (s.reads + 1))
    rw [List.map_append, List.map_singleton, List.append_assoc, List.range_succ]
    have hmid := @List.perm_middle _ s.reads (s.ring.pending.map fun request => request.buffer.read)
      ((s.ring.completed ++ s.released).map fun x => x.2.read)
    exact (hmid.trans (h.books.cons _)).trans (List.perm_append_singleton _ _).symm
  · show ((s.sq ++ [_] ++ s.inFlight).map _ ++ _).Perm ((s.ring.pending ++ [_]).map _)
    simp only [List.map_append, List.map_singleton, List.append_assoc]
    have hmid := @List.perm_middle _ s.reads (s.sq.map fun entry => entry.addr)
      ((s.inFlight.map fun entry => entry.addr) ++ s.cq.map fun c => c.read)
    have hold := h.outstanding
    rw [List.map_append, List.append_assoc] at hold
    exact (hmid.trans (hold.cons _)).trans (List.perm_append_singleton _ _).symm
  · intro entry hentry
    have hcases : entry ∈ s.sq ++ s.inFlight ∨ entry = ⟨fd, offset, s.reads, len, userData⟩ := by
      simp only [List.mem_append, List.mem_singleton] at hentry ⊢
      tauto
    -- A read that was there, or the new one.
    rcases hcases with hold | rfl
    · obtain ⟨request, hmem, hrest⟩ := h.asked entry hold
      exact ⟨request, hgrow request hmem, hrest⟩
    · exact ⟨⟨userData, ⟨s.reads, buffer⟩⟩, List.mem_append_right _ List.mem_cons_self, rfl, rfl,
        hlen⟩
  · intro completion hcompletion
    obtain ⟨request, hmem, hrest⟩ := h.posted completion hcompletion
    exact ⟨request, hgrow request hmem, hrest⟩

/-! ## The kernel -/

/-- **Entering the kernel** moves submissions, in their order. -/
theorem Inv.enter (h : s.Inv) (submit : Nat) : (s.run (.enter submit)).Inv := by
  have hperm : (s.sq.drop submit ++ (s.inFlight ++ s.sq.take submit)).Perm
      (s.sq ++ s.inFlight) := by
    have hsplit : (s.sq.take submit ++ s.sq.drop submit) = s.sq := List.take_append_drop _ _
    calc (s.sq.drop submit ++ (s.inFlight ++ s.sq.take submit)).Perm
          ((s.inFlight ++ s.sq.take submit) ++ s.sq.drop submit) := List.perm_append_comm
      _ = s.inFlight ++ s.sq := by rw [List.append_assoc, hsplit]
      List.Perm _ (s.sq ++ s.inFlight) := List.perm_append_comm
  refine ⟨h.books, ?_, ?_, h.posted, h.matched⟩
  · exact ((hperm.map _).append_right _).trans h.outstanding
  · exact fun entry hentry => h.asked entry (hperm.subset hentry)

@[simp] theorem land_read (read : Nat) (written : List UInt8) (buffer : Buffer) :
    (land read written buffer).read = buffer.read := by
  unfold land
  split <;> rfl

/-- A write lands in no other buffer. -/
theorem land_of_ne {read : Nat} {buffer : Buffer} (h : buffer.read ≠ read)
    (written : List UInt8) : land read written buffer = buffer := if_neg h

@[simp] theorem length_land (read : Nat) (written : List UInt8) (buffer : Buffer) :
    (land read written buffer).bytes.length = buffer.bytes.length := by
  unfold land
  split
  · simp only [overwrite, List.length_take, List.length_append, List.length_drop]
    omega
  · rfl

/-- What is written is at the front of the buffer. -/
theorem written_prefix_land {written : List UInt8} {buffer : Buffer}
    (h : written.length ≤ buffer.bytes.length) :
    written <+: (land buffer.read written buffer).bytes := by
  have hbytes : (land buffer.read written buffer).bytes
      = (overwrite buffer.bytes 0 written).take buffer.bytes.length := by
    rw [land, if_pos rfl]
  have hwhole : overwrite buffer.bytes 0 written = written ++ buffer.bytes.drop written.length := by
    rw [overwrite, List.take_zero, List.nil_append, Nat.zero_add]
  rw [hbytes, hwhole, List.prefix_take_iff]
  exact ⟨List.prefix_append _ _, h⟩

/-- What is completed or released is no longer written to. -/
theorem Inv.complete_eq (h : s.Inv) {k : Nat} {result : Int32} {written : List UInt8}
    {entry : SubmissionEntry} (hget : s.inFlight[k]? = some entry) :
    s.run (.complete k result written) =
      { s with
        inFlight := s.inFlight.eraseIdx k
        cq := s.cq ++ [⟨⟨entry.userData, result⟩, entry.addr, written⟩]
        ring := { s.ring with
          pending := s.ring.pending.map fun request =>
            { request with buffer := land entry.addr written request.buffer } } } := by
  obtain ⟨mine, hmine, hread, -⟩ :=
    h.asked entry (List.mem_append_right _ (List.mem_of_getElem? hget))
  have hne : ∀ x ∈ s.ring.completed ++ s.released, land entry.addr written x.2 = x.2 := by
    intro x hx
    refine land_of_ne (fun heq => ?_) written
    have hdisjoint := (List.nodup_append.mp h.nodup).2.2 mine.buffer.read
      (List.mem_map_of_mem hmine) x.2.read (List.mem_map_of_mem hx)
    exact hdisjoint (hread.trans heq.symm)
  have hsame (xs : List (Completion × Buffer)) (hxs : xs ⊆ s.ring.completed ++ s.released) :
      xs.map (fun x => (x.1, land entry.addr written x.2)) = xs := by
    refine (List.map_congr_left fun x hx => ?_).trans (List.map_id xs)
    rw [hne x (hxs hx)]
    rfl
  simp only [run, RingSystem.complete, hget, hsame _ (List.subset_append_left _ _),
    hsame _ (List.subset_append_right _ _)]

/-- An entry that leaves the ones in flight for the ones posted. -/
theorem perm_posted {α β : Type} {xs ys : List α} {k : Nat} {x : α} (hget : ys[k]? = some x)
    (f : α → β) (zs : List β) :
    ((xs ++ ys.eraseIdx k).map f ++ (zs ++ [f x])).Perm ((xs ++ ys).map f ++ zs) := by
  obtain ⟨hk, hx⟩ := List.getElem?_eq_some_iff.mp hget
  have hrest := List.getElem_cons_eraseIdx_perm hk
  rw [hx] at hrest
  have hmap : ((xs ++ ys).map f).Perm (f x :: (xs ++ ys.eraseIdx k).map f) :=
    ((hrest.symm.append_left xs).trans List.perm_middle).map f
  have hmove := List.perm_append_singleton (f x) ((xs ++ ys.eraseIdx k).map f ++ zs)
  rw [List.append_assoc] at hmove
  exact hmove.trans (hmap.symm.append_right zs)

/-- **A completion.** The bytes land in the read's own buffer, which is still pending. -/
theorem Inv.complete (h : s.Inv) {k : Nat} {result : Int32} {written : List UInt8}
    (hallowed : s.Allowed (.complete k result written)) :
    (s.run (.complete k result written)).Inv := by
  -- The kernel completes a read that it has, or there is none of that number.
  cases hget : s.inFlight[k]? with
  | none =>
    have hrun : s.run (.complete k result written) = s := by
      simp only [run, RingSystem.complete, hget]
    rw [hrun]
    exact h
  | some entry =>
    obtain ⟨hle, hresult⟩ := hallowed entry hget
    have hentry : entry ∈ s.sq ++ s.inFlight :=
      List.mem_append_right _ (List.mem_of_getElem? hget)
    obtain ⟨mine, hmine, hread, htag, hlen⟩ := h.asked entry hentry
    have hreads : (s.ring.pending.map fun request =>
        ({ request with buffer := land entry.addr written request.buffer } : PendingRead)).map
          (fun request => request.buffer.read)
        = s.ring.pending.map fun request => request.buffer.read := by
      rw [List.map_map]
      exact List.map_congr_left fun request _ => land_read _ _ _
    rw [h.complete_eq hget]
    refine ⟨?_, ?_, ?_, ?_, h.matched⟩
    · rw [hreads]
      exact h.books
    · have hcq (c : Completion) : (s.cq ++ [c]).map (fun completion => completion.read)
          = s.cq.map (fun completion => completion.read) ++ [c.read] := by
        rw [List.map_append, List.map_singleton]
      rw [hreads, hcq]
      exact (perm_posted hget (fun e => e.addr) _).trans h.outstanding
    · intro other hother
      have hold : other ∈ s.sq ++ s.inFlight := by
        rcases List.mem_append.mp hother with hsq | hflight
        · exact List.mem_append_left _ hsq
        · exact List.mem_append_right _ (List.mem_of_mem_eraseIdx hflight)
      obtain ⟨request, hmem, hr, ht, hl⟩ := h.asked other hold
      exact ⟨_, List.mem_map_of_mem hmem, (land_read _ _ _).trans hr, ht,
        hl.trans (length_land _ _ _).symm⟩
    · intro completion hcompletion
      -- An earlier completion, or this one.
      rcases List.mem_append.mp hcompletion with hold | hnew
      · obtain ⟨request, hmem, hr, ht, hstart, hres⟩ := h.posted completion hold
        refine ⟨_, List.mem_map_of_mem hmem, (land_read _ _ _).trans hr, ht, ?_, hres⟩
        -- it is of another read
        have hne := (List.nodup_append.mp h.nodup_outstanding).2.2 entry.addr
          (List.mem_map_of_mem hentry) completion.read (List.mem_map_of_mem hold)
        have hbuffer : land entry.addr written request.buffer = request.buffer :=
          land_of_ne (fun heq => hne (heq.symm.trans hr)) written
        rw [hbuffer]
        exact hstart
      · obtain rfl := List.mem_singleton.mp hnew
        refine ⟨_, List.mem_map_of_mem hmine, (land_read _ _ _).trans hread, htag, ?_, hresult⟩
        show written <+: (land entry.addr written mine.buffer).bytes
        rw [← hread]
        exact written_prefix_land (hlen ▸ hle)

/-! ## Taking completions -/

/-- What is handed out is what was posted. -/
theorem settle_bytes {completion : Completion} {buffer : Buffer}
    (hstart : completion.written <+: buffer.bytes)
    (hresult : 0 ≤ completion.entry.result →
      completion.entry.result.toInt = completion.written.length) :
    (settle completion.entry buffer).bytes = completion.bytes := by
  unfold settle Completion.bytes
  by_cases hok : 0 ≤ completion.entry.result
  · rw [if_pos hok, if_pos hok, hresult hok]
    exact List.prefix_iff_eq_take.mp hstart |>.symm
  · rw [if_neg hok, if_neg hok]

/-- Cutting a buffer leaves it the same read's. -/
theorem settle_read (entry : CompletionEntry) (buffer : Buffer) :
    (settle entry buffer).read = buffer.read := by
  unfold settle
  split <;> rfl

/-- Nothing is posted, or a pending read bears the tag of the first completion. -/
theorem Inv.tryComplete_cases (h : s.Inv) :
    s.run .tryComplete = s ∨ ∃ completion cq request pending,
      s.cq = completion :: cq ∧
        s.ring.pending.find? (fun request => request.userData == completion.entry.userData)
          = some request ∧
        (request :: pending).Perm s.ring.pending ∧ s.run .tryComplete =
          { s with
            cq
            ring := { s.ring with
              pending
              completed := s.ring.completed ++
                [(completion, settle completion.entry request.buffer)] } } := by
  -- Nothing is posted; or the tag is looked up among the pending reads.
  cases hcq : s.cq with
  | nil => exact .inl (by simp only [run, RingSystem.tryComplete, hcq])
  | cons completion cq =>
    obtain ⟨mine, hmine, -, htag, -⟩ :=
      h.posted completion (by rw [hcq]; exact List.mem_cons_self)
    cases hfind : s.ring.pending.find? fun request =>
        request.userData == completion.entry.userData with
    | none =>
      refine absurd (List.find?_eq_none.mp hfind mine hmine) ?_
      rw [htag, not_not]
      exact beq_self_eq_true _
    | some request =>
      obtain ⟨pending, hperm, hrun⟩ := tryComplete_of_pending hcq hfind
      exact .inr ⟨completion, cq, request, pending, rfl, hfind, hperm, hrun⟩

/-- **Taking a completion** keeps the law just when the buffer is its own read's. -/
theorem Inv.tryComplete (h : s.Inv) (hown : ¬s.Mismatches .tryComplete) :
    (s.run .tryComplete).Inv := by
  rcases h.tryComplete_cases with
    heq | ⟨completion, cq, request, pending, hcq, hfind, hperm, hrun⟩
  · rw [heq]
    exact h
  obtain ⟨mine, hmine, hread, -, hstart, hresult⟩ :=
    h.posted completion (by rw [hcq]; exact List.mem_cons_self)
  have hrequest : request.buffer.read = completion.read := by
    by_contra hne
    exact hown ⟨completion, cq, request, hcq, hfind, hne⟩
  obtain rfl : request = mine := h.unique (List.mem_of_find?_eq_some hfind) hmine
    (hrequest.trans hread.symm)
  rw [hrun]
  have hreads := hperm.map fun request => request.buffer.read
  -- a read of another number is pending still
  have hstill {other : PendingRead} (hmem : other ∈ s.ring.pending)
      (hne : other.buffer.read ≠ completion.read) : other ∈ pending := by
    rcases List.mem_cons.mp (hperm.symm.subset hmem) with rfl | hrest
    · exact absurd hrequest hne
    · exact hrest
  have hnodup := h.nodup_outstanding
  rw [hcq, List.map_cons] at hnodup
  refine ⟨?_, ?_, ?_, ?_, ?_⟩
  · show (pending.map _ ++ (s.ring.completed ++ [_] ++ s.released).map _).Perm _
    have hbooks := h.books
    simp only [List.map_append, List.map_singleton, List.append_assoc, settle_read] at hbooks ⊢
    have hmid := @List.perm_middle _ request.buffer.read
      (s.ring.completed.map fun x => x.2.read) (s.released.map fun x => x.2.read)
    exact ((hmid.append_left _).trans List.perm_middle).trans
      ((hreads.append_right _).trans hbooks)
  · show (_ ++ cq.map _).Perm (pending.map _)
    have hout := h.outstanding
    rw [hcq, List.map_cons] at hout
    have hall := List.perm_middle.symm.trans (hout.trans hreads.symm)
    rw [List.map_cons, hrequest] at hall
    exact hall.cons_inv
  · intro entry hentry
    obtain ⟨other, hmem, hr, hrest⟩ := h.asked entry hentry
    have hne := (List.nodup_append.mp hnodup).2.2 entry.addr (List.mem_map_of_mem hentry)
      completion.read List.mem_cons_self
    exact ⟨other, hstill hmem (hr ▸ hne), hr, hrest⟩
  · intro later hlater
    obtain ⟨other, hmem, hr, hrest⟩ :=
      h.posted later (by rw [hcq]; exact List.mem_cons_of_mem _ hlater)
    have hnot := (List.nodup_cons.mp (List.nodup_append.mp hnodup).2.1).1
    refine ⟨other, hstill hmem fun heq => hnot ?_, hr, hrest⟩
    rw [← heq, hr]
    exact List.mem_map_of_mem hlater
  · intro x hx
    have hcases : x ∈ s.ring.completed ++ s.released ∨
        x = (completion, settle completion.entry request.buffer) := by
      simp only [List.mem_append, List.mem_singleton] at hx ⊢
      tauto
    rcases hcases with hold | rfl
    · exact h.matched x hold
    · exact ⟨(settle_read _ _).trans hrequest, settle_bytes hstart hresult⟩

/-- **A mismatch breaks the law at once.** -/
theorem not_lawful_of_mismatches (h : s.Mismatches .tryComplete) :
    ¬(s.run .tryComplete).Lawful := by
  obtain ⟨completion, cq, request, hcq, hfind, hne⟩ := h
  obtain ⟨pending, -, hrun⟩ := tryComplete_of_pending hcq hfind
  rw [hrun]
  intro hlawful
  have hmatched := hlawful.matched (completion, settle completion.entry request.buffer)
    (List.mem_append_left _ (List.mem_append_right _ List.mem_cons_self))
  exact hne ((settle_read _ _).symm.trans hmatched.1)

/-- **Handing a buffer out** moves it, with its completion. -/
theorem Inv.takeCompleted (h : s.Inv) (userData : UInt64) :
    (s.run (.takeCompleted userData)).Inv := by
  rcases s.takeCompleted_cases userData with heq | ⟨x, completed, hperm, heq⟩
  · rw [heq]
    exact h
  rw [heq]
  have hmoved : (completed ++ (s.released ++ [x])).Perm (s.ring.completed ++ s.released) := by
    rw [← List.append_assoc]
    exact (List.perm_append_singleton x _).trans (hperm.append_right s.released)
  refine ⟨?_, h.outstanding, h.asked, h.posted, ?_⟩
  · exact ((hmoved.map _).append_left _).trans h.books
  · exact fun y hy => h.matched y (hmoved.subset hy)

/-! ## Runs -/

/-- Any call but a mismatch. -/
theorem Inv.run (h : s.Inv) {call : RingCall} (hallowed : s.Allowed call)
    (hown : ¬s.Mismatches call) : (s.run call).Inv := by
  cases call with
  | submitRead fd buffer offset userData => exact h.submitRead
  | tryComplete => exact h.tryComplete hown
  | takeCompleted userData => exact h.takeCompleted userData
  | enter submit => exact h.enter submit
  | complete k result written => exact h.complete hallowed

/-- **Each completion comes with its own buffer.** In any run in which `try_complete` never takes
    the buffer of another read, the law holds in every state; and the next call keeps it just when
    it does not. -/
theorem buffers_lawful_iff {sqEntries cqEntries : UInt32}
    (hrun : Reaches (Guarded (fun s call => ¬s.Mismatches call) runs) (new sqEntries cqEntries) s) :
    s.Lawful ∧ ∀ call, s.Allowed call → ((s.run call).Lawful ↔ ¬s.Mismatches call) := by
  have hinv : s.Inv := by
    refine hrun.invariant Inv (Inv.new sqEntries cqEntries) ?_
    rintro s call t hinv ⟨hown, hallowed, rfl⟩
    exact hinv.run hallowed hown
  refine ⟨hinv.lawful, fun call hallowed => ⟨fun hlawful hmismatch => ?_, fun hown => ?_⟩⟩
  · cases call with
    | tryComplete => exact not_lawful_of_mismatches hmismatch hlawful
    | _ => exact hmismatch
  · exact (hinv.run hallowed hown).lawful

/-! ## Tags that are not in use -/

/-- A read is submitted under a tag that no pending read bears. -/
def FreshTag (s : RingSystem) : RingCall → Prop
  | .submitRead _ _ _ userData => ∀ request ∈ s.ring.pending, request.userData ≠ userData
  | _ => True

/-- The pending reads bear different tags. -/
def Tagged (s : RingSystem) : Prop := (s.ring.pending.map fun request => request.userData).Nodup

/-- With distinct tags the first pending read with a tag is the only one. -/
theorem Inv.not_mismatches (h : s.Inv) (htagged : s.Tagged) (call : RingCall) :
    ¬s.Mismatches call := by
  cases call with
  | tryComplete =>
    intro hex
    obtain ⟨completion, cq, request, hcq, hfind, hne⟩ := hex
    obtain ⟨mine, hmine, hread, htag, -⟩ :=
      h.posted completion (by rw [hcq]; exact List.mem_cons_self)
    have hfound := List.find?_some hfind
    have htag' : request.userData = completion.entry.userData := beq_iff_eq.mp hfound
    have hsame : request = mine := List.inj_on_of_nodup_map htagged
      (List.mem_of_find?_eq_some hfind) hmine (htag'.trans htag.symm)
    exact hne (hsame ▸ hread)
  | _ => exact id

/-- The tags stay distinct. -/
theorem Tagged.run (h : s.Inv) (htagged : s.Tagged) {call : RingCall} (hfresh : s.FreshTag call) :
    (s.run call).Tagged := by
  -- Only a submission adds a tag, and taking a completion frees one.
  cases call with
  | submitRead fd buffer offset userData =>
    rcases s.submitRead_cases fd buffer offset userData with heq | ⟨len, -, heq⟩
    · rw [heq]
      exact htagged
    · rw [heq, Tagged, List.map_append, List.map_singleton, ← List.concat_eq_append]
      refine htagged.concat ?_
      intro hmem
      obtain ⟨request, hrequest, htag⟩ := List.mem_map.mp hmem
      exact hfresh request hrequest htag
  | tryComplete =>
    rcases h.tryComplete_cases with heq | ⟨completion, cq, request, pending, -, -, hperm, heq⟩
    · rw [heq]
      exact htagged
    · rw [heq]
      have htags := hperm.map fun request => request.userData
      exact (List.nodup_cons.mp (htags.nodup_iff.mpr htagged)).2
  | takeCompleted userData =>
    rcases s.takeCompleted_cases userData with heq | ⟨x, completed, -, heq⟩
    · rw [heq]
      exact htagged
    · rw [heq]
      exact htagged
  | enter submit => exact htagged
  | complete k result written =>
    simp only [RingSystem.run, complete]
    split
    · exact htagged
    · show ((s.ring.pending.map _).map _).Nodup
      rw [List.map_map]
      exact htagged

/-- **Tags not in use are enough.** -/
theorem lawful_of_fresh_tags {sqEntries cqEntries : UInt32}
    (hrun : Reaches (Guarded FreshTag runs) (new sqEntries cqEntries) s) : s.Lawful := by
  have hboth : s.Inv ∧ s.Tagged := by
    refine hrun.invariant (fun s => s.Inv ∧ s.Tagged)
      ⟨Inv.new sqEntries cqEntries, List.nodup_nil⟩ ?_
    rintro s call t ⟨hinv, htagged⟩ ⟨hfresh, hallowed, rfl⟩
    exact ⟨hinv.run hallowed (hinv.not_mismatches htagged call), Tagged.run hinv htagged hfresh⟩
  exact hboth.1.lawful

/-! ## Two reads -/

theorem not_mismatches_of_own {completion : Completion} {cq : List Completion}
    {request : PendingRead} (hcq : s.cq = completion :: cq)
    (hfind : s.ring.pending.find? (fun request => request.userData == completion.entry.userData)
      = some request) (hread : request.buffer.read = completion.read) :
    ¬s.Mismatches .tryComplete := by
  intro hex
  obtain ⟨completion', cq', request', hcq', hfind', hne⟩ := hex
  rw [hcq] at hcq'
  obtain ⟨rfl, rfl⟩ := List.cons.inj hcq'
  obtain rfl := Option.some.inj (hfind.symm.trans hfind')
  exact hne hread

/-- Two reads of two bytes submitted, and the second completed. -/
def secondDone (tag tag' : UInt64) : RingSystem :=
  [RingCall.submitRead 3 [0, 0] 0 tag, .submitRead 3 [0, 0] 0 tag', .enter 2,
    .complete 1 2 [5, 6]].foldl run (new 4 8)

theorem reaches_secondDone (tag tag' : UInt64) :
    Reaches (Guarded (fun s call => ¬s.Mismatches call) runs) (new 4 8) (secondDone tag tag') := by
  refine .head ⟨.submitRead 3 [0, 0] 0 tag, id, trivial, rfl⟩
    (.head ⟨.submitRead 3 [0, 0] 0 tag', id, trivial, rfl⟩
      (.head ⟨.enter 2, id, trivial, rfl⟩ (.single ⟨.complete 1 2 [5, 6], id, ?_, rfl⟩)))
  intro entry hentry
  obtain rfl := Option.some.inj hentry
  exact ⟨Nat.le_refl 2, fun _ => rfl⟩

/-- Under two tags, the second is handed out with what it read. -/
theorem buffers_lawful_two_tags :
    let s := ((secondDone 7 8).run .tryComplete).run (.takeCompleted 8)
    s.Lawful ∧ s.released = [(⟨⟨8, 2⟩, 1, [5, 6]⟩, ⟨1, [5, 6]⟩)] := by
  refine ⟨(buffers_lawful_iff (((reaches_secondDone 7 8).tail
    ⟨.tryComplete, ?_, trivial, rfl⟩).tail ⟨.takeCompleted 8, id, trivial, rfl⟩)).1, by decide⟩
  exact not_mismatches_of_own rfl rfl rfl

/-- Under one, its completion comes with the buffer of the first, and that is handed out while the
    kernel still reads into it. -/
theorem shared_tag_releases_other_buffer :
    let s := ((secondDone 7 7).run .tryComplete).run (.takeCompleted 7)
    Reaches runs (new 4 8) s ∧ s.released = [(⟨⟨7, 2⟩, 1, [5, 6]⟩, ⟨0, [0, 0]⟩)] ∧
      s.inFlight.map (fun entry => entry.addr) = [0] ∧ ¬s.Lawful := by
  refine ⟨?_, by decide, by decide, fun hlawful => ?_⟩
  · have hsteps := (reaches_secondDone 7 7).unguarded
    exact (hsteps.tail ⟨.tryComplete, trivial, rfl⟩).tail ⟨.takeCompleted 7, trivial, rfl⟩
  · have hmatched := hlawful.matched (⟨⟨7, 2⟩, 1, [5, 6]⟩, ⟨0, [0, 0]⟩) (by decide)
    exact absurd hmatched.1 (by decide)

end RingSystem

end Platform
end EngineKit
