import TwMonitor.TransferDriver

/-!
# Steps of a file transfer

The bytes of the stream that the host has not written, those on their way and
those stored are always the whole stream, in this order. And what the host waits
for is in exactly one place: on its way to the target, owed by the target, or on
its way back. So there is never a second byte for the receive queue.
-/
namespace TwMonitor.Transfer
open ByteMemory Usart

/-! ## The host -/

section
variable {h h' : Host} {b : BitVec 8}

theorem writeByte_eq_some (hw : writeByte h = some (b,h')) :
    h.waiting = none ∧ h'.waiting.toList.length = 1 ∧
      h.length ++ h.file = b::(h'.length ++ h'.file) := by
  obtain ⟨length,file,waiting⟩ := h
  cases waiting with
  | some phase => simp [writeByte] at hw
  | none =>
      cases length with
      | cons c rest =>
          obtain ⟨rfl,rfl⟩ := Prod.mk.inj (Option.some.inj hw)
          exact ⟨rfl,rfl,rfl⟩
      | nil =>
          cases file with
          | nil => simp [writeByte] at hw
          | cons c rest =>
              obtain ⟨rfl,rfl⟩ := Prod.mk.inj (Option.some.inj hw)
              exact ⟨rfl,rfl,rfl⟩

theorem readReply_ack (hr : readReply h ack = some h') :
    h.waiting.toList.length = 1 ∧ h' = { h with waiting := none } := by
  unfold readReply at hr
  split at hr
  · exact absurd hr (Option.some_ne_none _).symm
  · next phase hwaiting =>
      rw [if_pos rfl] at hr
      exact ⟨by rw [hwaiting]; rfl,(Option.some.inj hr).symm⟩

/-- Files of at most 65535 bytes are sent. -/
theorem hostMain_eq_some {file : List (BitVec 8)} (hfile : file.length ≤ 65535) :
    hostMain file = some { length := lengthBytes file.length, file } := by
  rw [hostMain,if_pos]
  rw [BitVec.toNat_ofNat]
  omega

end

/-! ## The target -/

/-- Outside of the queue memory is this one. -/
def Shows (places : Places) (m : Memory) (memory shown : Memory) : Prop :=
  ∀ a, ¬ places.OfQueue m a → memory a = shown a

/-- The bytes that a call of `receive_into` has stored so far, from `start` on. -/
structure ReceivingInto (places : Places) (m : Memory) (start : Address) (total : ℕ)
    (before : Memory) (bytes : List (BitVec 8)) (t : Target) : Prop where
  pointer : t.p = start + BitVec.ofNat 32 bytes.length
  left : t.len.toNat + (if t.point = .getchar then 1 else 0) + bytes.length = total
  memory : Shows places m t.memory (storeBytes before start bytes)

/-- The calls of `receive_into` have stored these bytes, the ones of the length
first. -/
def Progress (places : Places) (file : List (BitVec 8)) (m : Memory)
    (stored : List (BitVec 8)) (t : Target) : Prop :=
  (t.phase = .length ∧ ReceivingInto places m places.len 2 m stored t) ∨
    (t.phase = .file ∧ ∃ bytes, stored = lengthBytes file.length ++ bytes ∧
      ReceivingInto places m places.destination file.length
        (store16 m places.len (BitVec.ofNat 16 file.length)) bytes t)

section
variable {places : Places} {start : Address} {total : ℕ} {m before memory shown : Memory}
  {bytes : List (BitVec 8)} {t : Target} {r : Receiver}

/-- A write of the driver is not seen. -/
theorem Shows.storeQueue (h : Shows places m memory shown)
    (hring : load32 memory places.driverState = places.ring m) (q : IntQueue) :
    Shows places m (storeQueue memory places.driverState q) shown := by
  intro a ha
  obtain ⟨hbuffer,hindex⟩ := not_or.mp ha
  rw [← hring] at hbuffer
  rw [storeQueue_frame q hbuffer hindex,h a ha]

theorem Shows.store8 (h : Shows places m memory shown) (p : Address) (b : BitVec 8) :
    Shows places m (store8 memory p b) (store8 shown p b) := by
  intro a ha
  unfold ByteMemory.store8
  rw [h a ha]

namespace ReceivingInto

theorem driver (h : ReceivingInto places m start total before bytes t)
    (hring : load32 t.memory places.driverState = places.ring m) :
    ReceivingInto places m start total before bytes (t.setReceiver places r) :=
  ⟨h.pointer,h.left,h.memory.storeQueue hring _⟩

theorem getchar (h : ReceivingInto places m start total before bytes t)
    (hring : load32 t.memory places.driverState = places.ring m) (hloop : t.point = .loop)
    (hlen : t.len ≠ 0) :
    ReceivingInto places m start total before bytes (callGetchar places t r) where
  pointer := h.pointer
  left := by
    have hleft := h.left
    rw [hloop,if_neg (by decide)] at hleft
    change (t.len - 1).toNat + 1 + bytes.length = total
    have hdec : (t.len - 1).toNat + 1 = t.len.toNat := by bv_omega
    omega
  memory := h.memory.storeQueue hring _

/-- The pointer is inside of the range that is to be written. -/
theorem inRange (h : ReceivingInto places m start total before bytes t)
    (hgetchar : t.point = .getchar) (htotal : total ≤ 2 ^ 32) : InRange start total t.p := by
  have hleft := h.left
  rw [hgetchar,if_pos rfl] at hleft
  rw [h.pointer]
  exact inRange_place (by omega) htotal

theorem store (h : ReceivingInto places m start total before bytes t)
    (hring : load32 t.memory places.driverState = places.ring m) (hgetchar : t.point = .getchar)
    (b : BitVec 8) :
    ReceivingInto places m start total before (bytes ++ [b]) (storeByte places t r b) where
  pointer := by
    rw [List.length_append,List.length_singleton,BitVec.ofNat_add,← BitVec.add_assoc,← h.pointer]
    rfl
  left := by
    have hleft := h.left
    rw [hgetchar,if_pos rfl] at hleft
    rw [List.length_append,List.length_singleton]
    change t.len.toNat + 0 + (bytes.length + 1) = total
    omega
  memory := by
    rw [storeBytes_concat,← h.pointer]
    exact (h.memory.storeQueue hring _).store8 t.p b

theorem putchar (h : ReceivingInto places m start total before bytes t) (hack : t.point = .ack) :
    ReceivingInto places m start total before bytes { t with point := .loop } where
  pointer := h.pointer
  left := by
    have hleft := h.left
    rwa [hack,if_neg (by decide)] at hleft
  memory := h.memory

end ReceivingInto

end

section
variable {places : Places} {file stored : List (BitVec 8)} {m : Memory} {t t' : Target}

theorem Progress.mono (h : Progress places file m stored t) (hphase : t'.phase = t.phase)
    (hinto : ∀ {start total before bytes},
      ReceivingInto places m start total before bytes t →
        ReceivingInto places m start total before bytes t') :
    Progress places file m stored t' := by
  rcases h with ⟨hlength,hbytes⟩ | ⟨hfile,bytes,he,hbytes⟩
  · exact Or.inl ⟨hphase.trans hlength,hinto hbytes⟩
  · exact Or.inr ⟨hphase.trans hfile,bytes,he,hinto hbytes⟩

theorem Progress.store (h : Progress places file m stored t)
    (hring : load32 t.memory places.driverState = places.ring m) (hgetchar : t.point = .getchar)
    {r : Receiver} (b : BitVec 8) :
    Progress places file m (stored ++ [b]) (storeByte places t r b) := by
  rcases h with ⟨hlength,hbytes⟩ | ⟨hfile,bytes,rfl,hbytes⟩
  · exact Or.inl ⟨hlength,hbytes.store hring hgetchar b⟩
  · exact Or.inr ⟨hfile,bytes ++ [b],List.append_assoc _ _ _,hbytes.store hring hgetchar b⟩

/-- The next byte is not stored over the driver. -/
theorem Progress.pointer_apart (h : Progress places file m stored t)
    (hapart : places.Apart m file.length) (hfits : file.length ≤ 65535)
    (hgetchar : t.point = .getchar) : ¬ places.OfDriver m t.p := by
  rcases h with ⟨-,hbytes⟩ | ⟨-,bytes,-,hbytes⟩
  · exact hapart.len _ (hbytes.inRange hgetchar (by omega))
  · exact hapart.file _ (hbytes.inRange hgetchar (by omega))

/-- The driver writes only what it reads. -/
theorem ofDriver_of_ofQueue {a : Address} (h : places.OfQueue m a) : places.OfDriver m a := by
  refine h.imp_right fun hindex => ?_
  unfold InRange at hindex ⊢
  bv_omega

theorem apart_len (hapart : places.Apart m file.length) {a : Address}
    (ha : InRange places.len 2 a) : ¬ places.OfQueue m a :=
  fun hqueue => hapart.len a ha (ofDriver_of_ofQueue hqueue)

theorem apart_file (hapart : places.Apart m file.length) {a : Address}
    (ha : InRange places.destination file.length a) : ¬ places.OfQueue m a :=
  fun hqueue => hapart.file a ha (ofDriver_of_ofQueue hqueue)

/-- The second call gets the length that the first one has stored. -/
theorem Progress.finish (h : Progress places file m stored t)
    (hapart : places.Apart m file.length) (hfits : file.length ≤ 65535)
    (hinitial : stored <+: lengthBytes file.length ++ file) (hloop : t.point = .loop)
    (hzero : t.len = 0) : Progress places file m stored (finishCall places t) := by
  rcases h with ⟨hlength,hbytes⟩ | ⟨hfile,bytes,he,hbytes⟩
  · have hleft := hbytes.left
    rw [hloop,if_neg (by decide),hzero] at hleft
    have htwo : stored.length = (lengthBytes file.length).length := by
      change stored.length = 2
      simpa using hleft
    have hstored : stored = lengthBytes file.length := by
      have htake := List.prefix_iff_eq_take.mp hinitial
      rwa [htwo,List.take_left] at htake
    have hmemory : Shows places m t.memory
        (store16 m places.len (BitVec.ofNat 16 file.length)) := by
      have hshows := hbytes.memory
      rw [hstored] at hshows
      exact hshows
    have hload : load16 t.memory places.len = BitVec.ofNat 16 file.length := by
      rw [← load16_store16 m places.len (BitVec.ofNat 16 file.length)]
      refine load16_congr (hmemory _ (apart_len hapart ?_)) (hmemory _ (apart_len hapart ?_))
      · unfold InRange
        bv_omega
      · unfold InRange
        bv_omega
    rw [finishCall,hlength]
    refine Or.inr ⟨rfl,[],by rw [hstored,List.append_nil],?_,?_,hmemory⟩
    · exact (BitVec.add_zero places.destination).symm
    · change (load16 t.memory places.len).toNat + (if t.point = .getchar then 1 else 0) + 0 = _
      rw [hload,hloop,if_neg (by decide),BitVec.toNat_ofNat]
      omega
  · rw [finishCall,hfile]
    refine Or.inr ⟨rfl,bytes,he,hbytes.pointer,?_,hbytes.memory⟩
    have hleft := hbytes.left
    rwa [hloop,if_neg (by decide)] at hleft

end

/-! ## The system -/

/-- The target has stored a byte and has not replied yet. -/
def ReceivePoint.owed : ReceivePoint → ℕ
  | .ack => 1
  | _ => 0

/-- The stream is neither lost nor reordered, and what the host waits for is in
one place. The driver stays where it is. -/
structure TransferInvariant (places : Places) (file : List (BitVec 8)) (m : Memory)
    (stored : List (BitVec 8)) (s : System) : Prop where
  ring : load32 s.target.memory places.driverState = places.ring m
  ready : Ready (s.target.receiver places)
  reading : s.target.point = .getchar ↔ s.target.reading ≠ .idle
  stream : stored ++ s.inTransit places ++ (s.host.length ++ s.host.file) =
    lengthBytes file.length ++ file
  budget : (s.inTransit places).length + s.target.point.owed + s.replies.length =
    s.host.waiting.toList.length
  acks : ∀ b ∈ s.replies, b = ack
  progress : Progress places file m stored s.target

section
variable {places : Places} {m : Memory} {t : Target} {r : Receiver}

theorem inTransit_eq (s : System) :
    s.inTransit places = inDriver (s.target.receiver places) ++ s.wire := rfl

theorem waiting_le_one (h : Host) : h.waiting.toList.length ≤ 1 := by
  cases h.waiting <;> simp

/-- What was read from memory is what reader and handler have left. -/
theorem sameReceiver_setReceiver
    (hring : ∀ a, InRange (load32 t.memory places.driverState) bufferSize a →
      ¬ InRange places.driverState 12 a)
    (hbreak : r.driver.enableBreak = (t.receiver places).driver.enableBreak)
    (hpoll : r.driver.poll = (t.receiver places).driver.poll) :
    SameReceiver r ((t.setReceiver places r).receiver places) := by
  have hsame := driverIn_storeQueue r.queue hring
  exact ⟨⟨hsame.queue,hsame.enableBreak.trans hbreak.symm,hsame.poll.trans hpoll.symm⟩,rfl,rfl⟩

end

namespace TransferInvariant
variable {places : Places} {file stored : List (BitVec 8)} {m : Memory} {s s' : System}

theorem budget_le (h : TransferInvariant places file m stored s) :
    (s.inTransit places).length + s.target.point.owed + s.replies.length ≤ 1 :=
  h.budget.trans_le (waiting_le_one s.host)

/-- The receive queue holds at most the one byte. -/
theorem not_full (h : TransferInvariant places file m stored s) :
    intqueueIsFull (s.target.receiver places).queue = false := by
  apply not_full_of_length
  have hle := h.budget_le
  rw [inTransit_eq,inDriver] at hle
  simp only [List.length_append] at hle
  unfold bufferSize
  omega

/-- The driver is idle unless the target waits for a byte. -/
theorem idle (h : TransferInvariant places file m stored s) (hpoint : s.target.point ≠ .getchar) :
    s.target.reading = .idle := by
  by_contra hbusy
  exact hpoint (h.reading.mpr hbusy)

/-- The driver is found again after a step. -/
theorem sameReceiver (h : TransferInvariant places file m stored s)
    (hapart : places.Apart m file.length) {event : ReceiveEvent} {r : Receiver}
    (hstep : ReceiveStep (s.target.receiver places) event r)
    (hbreak : r.driver.enableBreak = (s.target.receiver places).driver.enableBreak) :
    SameReceiver r ((s.target.setReceiver places r).receiver places) := by
  refine sameReceiver_setReceiver ?_ hbreak (receiveStep_poll hstep)
  rw [h.ring]
  exact hapart.ring

theorem ring_setReceiver (h : TransferInvariant places file m stored s)
    (hapart : places.Apart m file.length) (r : Receiver) :
    load32 (s.target.setReceiver places r).memory places.driverState = places.ring m := by
  refine (load32_storeQueue r.queue ?_).trans h.ring
  rw [h.ring]
  exact hapart.ring

theorem write (h : TransferInvariant places file m stored s) {b : BitVec 8} {host : Host}
    (hw : writeByte s.host = some (b,host)) :
    TransferInvariant places file m stored { s with host, wire := s.wire ++ [b] } := by
  obtain ⟨hfree,hwaits,hrest⟩ := writeByte_eq_some hw
  have hbudget := h.budget
  rw [hfree,inTransit_eq,List.length_append] at hbudget
  have hstream := h.stream
  rw [hrest,inTransit_eq] at hstream
  refine ⟨h.ring,h.ready,h.reading,?_,?_,h.acks,h.progress⟩
  · rw [inTransit_eq,← hstream]
    simp
  · rw [inTransit_eq,hwaits]
    simp only [List.length_append,List.length_singleton]
    simp only [Option.toList_none,List.length_nil] at hbudget
    omega

theorem read (h : TransferInvariant places file m stored s) {b : BitVec 8}
    {replies : List (BitVec 8)} {host : Host} (hreplies : s.replies = b::replies)
    (hr : readReply s.host b = some host) :
    TransferInvariant places file m stored { s with host, replies } := by
  have hacks := h.acks
  rw [hreplies] at hacks
  obtain rfl := hacks b List.mem_cons_self
  obtain ⟨hwaits,rfl⟩ := readReply_ack hr
  have hbudget := h.budget
  rw [hwaits,hreplies,List.length_cons] at hbudget
  refine ⟨h.ring,h.ready,h.reading,h.stream,?_,fun c hc => hacks c (List.mem_cons_of_mem _ hc),
    h.progress⟩
  change (s.inTransit places).length + s.target.point.owed + replies.length = 0
  omega

/-- A step of the target that leaves the bytes in transit and what it owes. -/
theorem moves (h : TransferInvariant places file m stored s) {t : Target}
    {wire : List (BitVec 8)} (hring : load32 t.memory places.driverState = places.ring m)
    (hready : Ready (t.receiver places)) (hreading : t.point = .getchar ↔ t.reading ≠ .idle)
    (htransit : inDriver (t.receiver places) ++ wire = s.inTransit places)
    (howed : t.point.owed = s.target.point.owed) (hprogress : Progress places file m stored t) :
    TransferInvariant places file m stored { s with target := t, wire } := by
  refine ⟨hring,hready,hreading,?_,?_,h.acks,hprogress⟩
  · rw [inTransit_eq,htransit]
    exact h.stream
  · rw [inTransit_eq,htransit,howed]
    exact h.budget

theorem arrive (h : TransferInvariant places file m stored s)
    (hapart : places.Apart m file.length) {b : BitVec 8} {wire : List (BitVec 8)} {r : Receiver}
    (hwire : s.wire = b::wire) (hstep : ReceiveStep (s.target.receiver places) (.arrived b) r) :
    TransferInvariant places file m stored
      { s with wire, target := s.target.setReceiver places r } := by
  have hring := h.ring_setReceiver hapart r
  cases hstep with
  | arrived b hpending =>
      have hstep := ReceiveStep.arrived b hpending
      have hsame := h.sameReceiver hapart hstep rfl
      have htransit : inDriver ((s.target.setReceiver places
          { s.target.receiver places with pending := some b }).receiver places) ++ wire =
            s.inTransit places := by
        rw [hsame.inDriver_eq,inTransit_eq,hwire,inDriver,inDriver,hpending]
        simp [Receiver.queue]
      exact h.moves hring (hsame.ready (h.ready.step hstep rfl)) h.reading htransit rfl
        (h.progress.mono rfl fun hinto => hinto.driver h.ring)

theorem driver (h : TransferInvariant places file m stored s)
    (hapart : places.Apart m file.length) {event : ReceiveEvent} {r : Receiver}
    (hinternal : event.isInternal = true)
    (hstep : ReceiveStep (s.target.receiver places) event r) :
    TransferInvariant places file m stored
      { s with target := s.target.setReceiver places r } := by
  obtain ⟨hready,hmoved,hidle⟩ := h.ready.internal h.not_full hinternal hstep
  have hsame := h.sameReceiver hapart hstep (hready.noBreak.trans h.ready.noBreak.symm)
  have htransit : inDriver ((s.target.setReceiver places r).receiver places) ++ s.wire =
      s.inTransit places := by
    rw [hsame.inDriver_eq,hmoved,inTransit_eq]
  exact h.moves (h.ring_setReceiver hapart r) (hsame.ready hready)
    (h.reading.trans (not_congr hidle.symm)) htransit rfl
    (h.progress.mono rfl fun hinto => hinto.driver h.ring)

theorem finish (h : TransferInvariant places file m stored s)
    (hapart : places.Apart m file.length) (hfits : file.length ≤ 65535)
    (hloop : s.target.point = .loop) (hzero : s.target.len = 0) :
    TransferInvariant places file m stored { s with target := finishCall places s.target } := by
  have hinitial : stored <+: lengthBytes file.length ++ file := by
    refine ⟨s.inTransit places ++ (s.host.length ++ s.host.file),?_⟩
    rw [← h.stream,List.append_assoc]
  have hidle := h.idle (by rw [hloop]; decide)
  have hkept : (finishCall places s.target).memory = s.target.memory ∧
      (finishCall places s.target).reading = s.target.reading ∧
      (finishCall places s.target).received = s.target.received ∧
      (finishCall places s.target).point.owed = s.target.point.owed ∧
      (finishCall places s.target).point ≠ .getchar := by
    unfold finishCall
    cases s.target.phase with
    | length => exact ⟨rfl,rfl,rfl,rfl,by rw [hloop]; decide⟩
    | file => exact ⟨rfl,rfl,rfl,by rw [hloop]; rfl,by simp⟩
  obtain ⟨hmemory,hreading,hreceived,howed,hpoint⟩ := hkept
  have hreceiver : (finishCall places s.target).receiver places = s.target.receiver places := by
    rw [Target.receiver,Target.receiver,hmemory,hreading,hreceived]
  refine h.moves ?_ ?_ ?_ ?_ howed (h.progress.finish hapart hfits hinitial hloop hzero)
  · rw [hmemory]
    exact h.ring
  · rw [hreceiver]
    exact h.ready
  · rw [hreading]
    exact iff_of_false hpoint (not_not.mpr hidle)
  · rw [hreceiver]
    exact (inTransit_eq s).symm

theorem getchar (h : TransferInvariant places file m stored s)
    (hapart : places.Apart m file.length) {r : Receiver} (hloop : s.target.point = .loop)
    (hlen : s.target.len ≠ 0) (hstep : ReceiveStep (s.target.receiver places) .call r) :
    TransferInvariant places file m stored
      { s with target := callGetchar places s.target r } := by
  have hring := h.ring_setReceiver hapart r
  cases hstep with
  | call hidle hpoll =>
      have hstep := ReceiveStep.call hidle hpoll
      have hsame := h.sameReceiver hapart hstep rfl
      have htransit : inDriver ((callGetchar places s.target
          { s.target.receiver places with point := .test }).receiver places) ++ s.wire =
            s.inTransit places := by
        refine (congrArg (· ++ s.wire) hsame.inDriver_eq).trans ?_
        rw [inTransit_eq,inDriver,inDriver,hidle]
        rfl
      have hreading : (callGetchar places s.target
          { s.target.receiver places with point := .test }).reading ≠ .idle := by
        simp [callGetchar,Target.setReceiver]
      exact h.moves hring (hsame.ready (h.ready.step hstep rfl)) (iff_of_true rfl hreading)
        htransit (by rw [hloop]; rfl)
        (h.progress.mono rfl fun hinto => hinto.getchar h.ring hloop hlen)

/-- The byte is stored outside of the driver. -/
theorem driver_storeByte (h : TransferInvariant places file m stored s)
    (hapart : places.Apart m file.length) (hfits : file.length ≤ 65535)
    (hgetchar : s.target.point = .getchar) (r : Receiver) (b : BitVec 8) :
    load32 (storeByte places s.target r b).memory places.driverState = places.ring m ∧
      SameDriver ((s.target.setReceiver places r).receiver places).driver
        ((storeByte places s.target r b).receiver places).driver := by
  have hset := h.ring_setReceiver hapart r
  have hout := h.progress.pointer_apart hapart hfits hgetchar
  have hwritten {a : Address} (ha : places.OfDriver m a) :
      (storeByte places s.target r b).memory a = (s.target.setReceiver places r).memory a := by
    refine store8_ne _ _ ?_
    rintro rfl
    exact hout ha
  constructor
  · refine (load32_congr fun a ha => hwritten (Or.inr ?_)).trans hset
    unfold InRange at ha ⊢
    omega
  · refine driverIn_congr (fun a ha => hwritten (Or.inl ?_)) fun a ha => hwritten (Or.inr ha)
    rwa [hset] at ha

theorem store (h : TransferInvariant places file m stored s)
    (hapart : places.Apart m file.length) (hfits : file.length ≤ 65535) {b : BitVec 8}
    {r : Receiver} (hgetchar : s.target.point = .getchar)
    (hstep : ReceiveStep (s.target.receiver places) (.returned b) r) :
    TransferInvariant places file m (stored ++ [b])
      { s with target := storeByte places s.target r b } := by
  obtain ⟨hring,hstored⟩ := h.driver_storeByte hapart hfits hgetchar r b
  cases hstep with
  | returned hret =>
      have hstep := ReceiveStep.returned hret
      have hsame := h.sameReceiver hapart hstep rfl
      have hafter : SameReceiver _ ((storeByte places s.target
          { s.target.receiver places with point := .idle } b).receiver places) :=
        ⟨hstored,rfl,rfl⟩
      have htransit : s.inTransit places = b::(inDriver ((storeByte places s.target
          { s.target.receiver places with point := .idle } b).receiver places) ++ s.wire) := by
        rw [hafter.inDriver_eq,hsame.inDriver_eq,inTransit_eq,inDriver,inDriver,hret]
        rfl
      have hstream := h.stream
      have hbudget := h.budget
      rw [htransit] at hstream hbudget
      rw [hgetchar] at hbudget
      refine ⟨hring,hafter.ready (hsame.ready (h.ready.step hstep rfl)),
        iff_of_false (by simp [storeByte]) (by simp [storeByte,Target.setReceiver]),?_,?_,h.acks,
        h.progress.store h.ring hgetchar b⟩
      · rw [inTransit_eq,← hstream]
        simp
      · have howed : ReceivePoint.getchar.owed = 0 := rfl
        rw [List.length_cons,howed] at hbudget
        rw [inTransit_eq]
        change _ + 1 + s.replies.length = s.host.waiting.toList.length
        omega

theorem putchar (h : TransferInvariant places file m stored s) (hack : s.target.point = .ack) :
    TransferInvariant places file m stored
      { s with target := { s.target with point := .loop }, replies := s.replies ++ [ack] } := by
  have hidle := h.idle (by rw [hack]; decide)
  have hbudget := h.budget
  rw [hack] at hbudget
  refine ⟨h.ring,h.ready,iff_of_false (by simp) (not_not.mpr hidle),h.stream,?_,?_,?_⟩
  · rw [← hbudget,List.length_append,List.length_singleton]
    change (s.inTransit places).length + 0 + (s.replies.length + 1) =
      (s.inTransit places).length + 1 + s.replies.length
    omega
  · intro b hb
    rcases List.mem_append.mp hb with hold | hnew
    · exact h.acks b hold
    · exact List.mem_singleton.mp hnew
  · exact h.progress.mono rfl fun hinto => hinto.putchar hack

/-- Every step keeps the invariant, with one more byte stored or none. -/
theorem step (h : TransferInvariant places file m stored s)
    (hapart : places.Apart m file.length) (hfits : file.length ≤ 65535)
    (hstep : SystemStep places s s') :
    ∃ stored', TransferInvariant places file m stored' s' := by
  cases hstep with
  | write hw => exact ⟨stored,h.write hw⟩
  | read hreplies hr => exact ⟨stored,h.read hreplies hr⟩
  | arrive hwire hr => exact ⟨stored,h.arrive hapart hwire hr⟩
  | target ht =>
      cases ht with
      | driver hinternal hr =>
          rw [List.append_nil]
          exact ⟨stored,h.driver hapart hinternal hr⟩
      | finish hloop hzero =>
          rw [List.append_nil]
          exact ⟨stored,h.finish hapart hfits hloop hzero⟩
      | getchar hloop hlen hr =>
          rw [List.append_nil]
          exact ⟨stored,h.getchar hapart hloop hlen hr⟩
      | store hgetchar hr =>
          rw [List.append_nil]
          exact ⟨_,h.store hapart hfits hgetchar hr⟩
      | putchar hack => exact ⟨stored,h.putchar hack⟩

theorem run (h : TransferInvariant places file m stored s)
    (hapart : places.Apart m file.length) (hfits : file.length ≤ 65535)
    (hrun : Relation.ReflTransGen (SystemStep places) s s') :
    ∃ stored', TransferInvariant places file m stored' s' := by
  induction hrun with
  | refl => exact ⟨stored,h⟩
  | tail _ hstep ih =>
      obtain ⟨stored',hs⟩ := ih
      exact hs.step hapart hfits hstep

end TransferInvariant

/-- An empty queue holds no stale byte. -/
theorem systemInit_invariant {places : Places} {m : Memory}
    (hwaits : Waits (driverIn m places.driverState)) (file : List (BitVec 8)) :
    TransferInvariant places file m []
      (systemInit places { length := lengthBytes file.length, file } m) := by
  have hnone : (driverIn m places.driverState).intqueue.contents = [] := by
    rw [contents_eq_nil_iff,intqueueIsEmpty,hwaits.empty]
    rfl
  have htransit : (systemInit places { length := lengthBytes file.length, file } m).inTransit
      places = [] := by
    change [] ++ (driverIn m places.driverState).intqueue.contents ++ [] ++ [] = []
    rw [hnone]
    rfl
  refine ⟨rfl,⟨⟨[],hwaits.valid,?_,?_⟩,hwaits.noBreak,hwaits.noPoll⟩,?_,?_,?_,?_,?_⟩
  · simp [systemInit,targetInit,Target.receiver]
  · exact hnone
  · exact iff_of_false (by simp [systemInit,targetInit]) (by simp [systemInit,targetInit])
  · rw [htransit]
    rfl
  · rw [htransit]
    rfl
  · simp [systemInit]
  · exact Or.inl ⟨rfl,(BitVec.add_zero places.len).symm,rfl,fun _ _ => rfl⟩

end TwMonitor.Transfer
