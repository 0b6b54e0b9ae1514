import TwMonitor.TransferSteps

/-!
# Safety of the file transfer

What was stored is at every moment a prefix of the file, and nothing is overrun or
dropped. From every point between two bytes the transfer can be completed, and it
leaves the driver ready for the next one.
-/
namespace TwMonitor.Transfer
open ByteMemory Usart

/-! ## Safety -/

/-- What holds at every moment of a transfer. Besides the file only the variable
`len` of the target and the receive queue are written. -/
structure Safe (places : Places) (file : List (BitVec 8)) (m : Memory) (s : System) : Prop where
  oneUnacknowledged :
    (s.inTransit places).length + s.target.point.owed + s.replies.length ≤ 1
  notFull : intqueueIsFull (s.target.receiver places).queue = false
  noBreak : ∀ b, isBreak (s.target.receiver places).driver b = false
  noOverrun : s.wire ≠ [] → s.target.received = none
  storedLe : s.stored places ≤ file.length
  storedPrefix : ∀ i < s.stored places,
    file[i]? = some (s.target.memory (places.destination + BitVec.ofNat 32 i))
  frame : ∀ a, ¬ InRange places.destination (s.stored places) a → ¬ InRange places.len 2 a →
    ¬ places.OfQueue m a → s.target.memory a = m a
  finished : s.host.Finished → s.stored places = file.length
  waitsAgain : s.host.Finished → Waits (s.target.receiver places).driver

namespace TransferInvariant
variable {places : Places} {file stored : List (BitVec 8)} {m : Memory} {s : System}

/-- What the second call has stored is a prefix of the file. -/
theorem storedPrefix (h : TransferInvariant places file m stored s) (hfits : file.length ≤ 65535) :
    (s.target.phase = .length ∧ s.stored places = 0 ∧ stored.length ≤ 2 ∧
      Shows places m s.target.memory (storeBytes m places.len stored)) ∨
    ∃ bytes, bytes <+: file ∧ stored = lengthBytes file.length ++ bytes ∧
      s.stored places = bytes.length ∧
      Shows places m s.target.memory
        (storeBytes (storeBytes m places.len (lengthBytes file.length)) places.destination
          bytes) := by
  rcases h.progress with ⟨hlength,hinto⟩ | ⟨hfile,bytes,rfl,hinto⟩
  · have hleft := hinto.left
    refine Or.inl ⟨hlength,by rw [System.stored,hlength],by omega,hinto.memory⟩
  · have hleft := hinto.left
    refine Or.inr ⟨bytes,?_,rfl,?_,hinto.memory⟩
    · have hstream := h.stream
      rw [List.append_assoc,List.append_assoc,List.append_right_inj] at hstream
      exact ⟨_,hstream⟩
    · rw [System.stored,hfile,hinto.pointer]
      change (places.destination + BitVec.ofNat 32 bytes.length - places.destination).toNat = _
      rw [BitVec.add_comm,BitVec.add_sub_cancel,BitVec.toNat_ofNat]
      omega

/-- Nothing is on its way while the host does not wait. -/
theorem rests (h : TransferInvariant places file m stored s) (hfree : s.host.waiting = none) :
    s.inTransit places = [] ∧ s.target.point.owed = 0 ∧ s.replies = [] := by
  have hbudget := h.budget
  rw [hfree,Option.toList_none,List.length_nil] at hbudget
  exact ⟨List.length_eq_zero_iff.mp (by omega),by omega,List.length_eq_zero_iff.mp (by omega)⟩

/-- Once nothing is on its way the whole stream has been stored. -/
theorem stored_of_finished (h : TransferInvariant places file m stored s)
    (hfinished : s.host.Finished) : stored = lengthBytes file.length ++ file := by
  obtain ⟨hwaiting,hlength,hfile⟩ := hfinished
  have hstream := h.stream
  rw [(h.rests hwaiting).1,hlength,hfile] at hstream
  simpa using hstream

/-- While a byte is on the wire none is pending in the receiver. -/
theorem no_overrun (h : TransferInvariant places file m stored s) (hwire : s.wire ≠ []) :
    s.target.received = none := by
  have hbudget := h.budget_le
  have hpos := List.length_pos_of_ne_nil hwire
  rw [inTransit_eq,inDriver] at hbudget
  simp only [List.length_append] at hbudget
  have hpending : (s.target.receiver places).pending = s.target.received := rfl
  rw [hpending] at hbudget
  have hnone : s.target.received.toList = [] := List.length_eq_zero_iff.mp (by omega)
  exact Option.toList_eq_nil_iff.mp hnone

/-- The queue is empty once the host has its last reply, wherever it has got to. -/
theorem waitsAgain (h : TransferInvariant places file m stored s)
    (hfree : s.host.waiting = none) : Waits (s.target.receiver places).driver := by
  obtain ⟨events,hevents⟩ := h.ready.history
  have htransit := (h.rests hfree).1
  rw [inTransit_eq,inDriver] at htransit
  simp only [List.append_eq_nil_iff] at htransit
  have hempty := contents_eq_nil_iff.mp htransit.1.1.2
  exact ⟨hevents.valid,beq_iff_eq.mp hempty,h.ready.noBreak,h.ready.noPoll⟩

theorem safe (h : TransferInvariant places file m stored s)
    (hapart : places.Apart m file.length) (hfits : file.length ≤ 65535) :
    Safe places file m s := by
  have hbudget := h.budget_le
  have hoverrun := h.no_overrun
  have hwhole := h.stored_of_finished
  have hagain := fun hfinished : s.host.Finished => h.waitsAgain hfinished.1
  rcases h.storedPrefix hfits with ⟨_,hzero,htwo,hmemory⟩ | ⟨bytes,hinitial,he,hcount,hmemory⟩
  · refine ⟨hbudget,h.not_full,isBreak_eq_false h.ready.noBreak,hoverrun,by omega,by omega,?_,?_,
      hagain⟩
    · intro a _ hvariable hqueue
      rw [hmemory a hqueue]
      exact storeBytes_frame m places.len stored fun hin => hvariable (lt_of_lt_of_le hin htwo)
    · intro hfinished
      rw [hwhole hfinished,List.length_append] at htwo
      change 2 + file.length ≤ 2 at htwo
      omega
  · have hle := hinitial.length_le
    refine ⟨hbudget,h.not_full,isBreak_eq_false h.ready.noBreak,hoverrun,by omega,?_,?_,?_,
      hagain⟩
    · intro i hi
      rw [hcount] at hi
      have hplace : ¬ places.OfQueue m (places.destination + BitVec.ofNat 32 i) :=
        apart_file hapart (inRange_place (by omega) (by omega))
      obtain ⟨rest,hrest⟩ := hinitial
      rw [hmemory _ hplace,← storeBytes_get _ _ (by omega) hi,← hrest,
        List.getElem?_append_left hi]
    · intro a hout hvariable hqueue
      rw [hcount] at hout
      rw [hmemory a hqueue,storeBytes_frame _ _ _ hout]
      exact storeBytes_frame m places.len _ hvariable
    · intro hfinished
      have hbytes := List.append_cancel_left (he.symm.trans (hwhole hfinished))
      rw [hcount,hbytes]

end TransferInvariant

/-! ## A complete transfer -/

/-- Host and target are between two bytes. -/
structure Resting (s : System) : Prop where
  free : s.host.waiting = none
  loop : s.target.point = .loop

/-- What the host waits for is in the queue or taken out of it. -/
structure Delivered (s : System) : Prop where
  waits : s.host.waiting ≠ none
  replies : s.replies = []
  wire : s.wire = []
  received : s.target.received = none

theorem writeByte_isSome {h : Host} (hfree : h.waiting = none) (hleft : h.length ++ h.file ≠ []) :
    ∃ b h', writeByte h = some (b,h') := by
  obtain ⟨length,file,waiting⟩ := h
  obtain rfl : waiting = none := hfree
  cases length with
  | cons b rest => exact ⟨_,_,rfl⟩
  | nil =>
      cases file with
      | nil => exact absurd rfl hleft
      | cons b rest => exact ⟨_,_,rfl⟩

section
variable {r : Receiver}

theorem mainStep_test (hpoint : r.point = .test) (hsome : intqueueIsEmpty r.queue = false) :
    mainStep r = some { r with point := .get } := by
  simp [mainStep,hpoint,hsome]

theorem mainStep_get (hpoint : r.point = .get) (hsome : intqueueIsEmpty r.queue = false) :
    mainStep r = some { r with point := .take } := by
  simp [mainStep,hpoint,hsome]

theorem mainStep_take (hpoint : r.point = .take) :
    ∃ b d, mainStep r = some { r with driver := d, point := .ret b } := by
  simp [mainStep,hpoint]

end

/-- The handler has run after a byte has arrived. -/
def handled (places : Places) (t : Target) (b : BitVec 8) : Target :=
  let arrived := t.setReceiver places { t.receiver places with pending := some b }
  arrived.setReceiver places (isrStep (arrived.receiver places))

section
variable {places : Places} {file stored : List (BitVec 8)} {m : Memory} {s : System}

/-- A step in which the target writes nothing. -/
theorem silent {t : Target} (ht : TargetStep places s.target [] t) :
    SystemStep places s { s with target := t } := by
  have hstep := SystemStep.target ht
  rwa [List.append_nil] at hstep

theorem Delivered.nonempty (hd : Delivered s) (h : TransferInvariant places file m stored s)
    (howed : s.target.point.owed = 0) (hhand : s.target.reading.inHand = []) :
    intqueueIsEmpty (s.target.receiver places).queue = false := by
  have hbudget := h.budget
  obtain ⟨phase,hphase⟩ := Option.ne_none_iff_exists'.mp hd.waits
  rw [howed,hd.replies,hphase,System.inTransit,hhand,hd.received,hd.wire] at hbudget
  rw [← Bool.not_eq_true,← contents_eq_nil_iff]
  intro hnone
  have hcontents : (driverIn s.target.memory places.driverState).intqueue.contents = [] := hnone
  rw [hcontents] at hbudget
  simp at hbudget

namespace TransferInvariant

/-- A byte that was written gets into the queue. -/
theorem deliver (h : TransferInvariant places file m stored s)
    (hapart : places.Apart m file.length) (hrest : Resting s) {b : BitVec 8} {host : Host}
    (hw : writeByte s.host = some (b,host)) :
    ∃ t, Relation.ReflTransGen (SystemStep places) s { s with host, target := t } ∧
      TransferInvariant places file m stored { s with host, target := t } ∧
      Delivered { s with host, target := t } ∧ t.point = .loop ∧ t.len = s.target.len := by
  obtain ⟨htransit,-,hreplies⟩ := h.rests hrest.free
  rw [System.inTransit] at htransit
  simp only [List.append_eq_nil_iff,Option.toList_eq_nil_iff] at htransit
  obtain ⟨⟨-,hnone⟩,hwire⟩ := htransit
  obtain ⟨host₀,wire,replies,target⟩ := s
  obtain rfl : wire = [] := hwire
  have hsent := h.write hw
  have harrived : ReceiveStep (target.receiver places) (.arrived b) _ := .arrived b hnone
  have hisr := ReceiveStep.isr (r := ((target.setReceiver places
    { target.receiver places with pending := some b }).receiver places))
  have hpending := hsent.arrive hapart rfl harrived
  have hwaits : host.waiting ≠ none := by
    obtain ⟨-,hone,-⟩ := writeByte_eq_some hw
    intro hfree
    rw [hfree] at hone
    exact absurd hone (by decide)
  refine ⟨handled places target b,?_,hpending.driver hapart rfl hisr,⟨hwaits,hreplies,rfl,rfl⟩,
    hrest.loop,rfl⟩
  exact .tail (.tail (.tail .refl (.write hw)) (.arrive rfl harrived)) (silent (.driver rfl hisr))

/-- The target calls the reader. -/
theorem calls (h : TransferInvariant places file m stored s)
    (hapart : places.Apart m file.length) (hd : Delivered s) (hloop : s.target.point = .loop)
    (hlen : s.target.len ≠ 0) :
    ∃ t, SystemStep places s { s with target := t } ∧
      TransferInvariant places file m stored { s with target := t } ∧
      Delivered { s with target := t } ∧ t.point = .getchar ∧ t.reading = .test := by
  have hidle := h.idle (by rw [hloop]; decide)
  have hcall : ReceiveStep (s.target.receiver places) .call _ := .call hidle h.ready.noPoll
  exact ⟨_,silent (.getchar hloop hlen hcall),h.getchar hapart hloop hlen hcall,
    ⟨hd.waits,hd.replies,hd.wire,hd.received⟩,rfl,rfl⟩

/-- The reader goes on. -/
theorem reads (h : TransferInvariant places file m stored s)
    (hapart : places.Apart m file.length) (hd : Delivered s) {r : Receiver}
    (hmain : mainStep (s.target.receiver places) = some r) :
    SystemStep places s { s with target := s.target.setReceiver places r } ∧
      TransferInvariant places file m stored
        { s with target := s.target.setReceiver places r } ∧
      Delivered { s with target := s.target.setReceiver places r } := by
  obtain ⟨hpending,-⟩ := mainStep_frame hmain
  exact ⟨silent (.driver rfl (.main hmain)),h.driver hapart rfl (.main hmain),
    hd.waits,hd.replies,hd.wire,hpending.trans hd.received⟩

/-- From its test on it takes the byte out of the queue. -/
theorem takes (h : TransferInvariant places file m stored s)
    (hapart : places.Apart m file.length) (hd : Delivered s) (hpoint : s.target.point = .getchar)
    (htest : s.target.reading = .test) :
    ∃ b t, Relation.ReflTransGen (SystemStep places) s { s with target := t } ∧
      TransferInvariant places file m stored { s with target := t } ∧
      Delivered { s with target := t } ∧ t.point = .getchar ∧ t.reading = .ret b := by
  have howed : s.target.point.owed = 0 := by rw [hpoint]; rfl
  have hsome := hd.nonempty h howed (by rw [htest]; rfl)
  obtain ⟨hstep₁,h₁,hd₁⟩ := h.reads hapart hd (mainStep_test htest hsome)
  obtain ⟨hstep₂,h₂,hd₂⟩ := h₁.reads hapart hd₁ (mainStep_get rfl (hd₁.nonempty h₁ howed rfl))
  obtain ⟨b,d,htake⟩ := mainStep_take (r := ((s.target.setReceiver places _).setReceiver places
    { Target.receiver places _ with point := .take }).receiver places) rfl
  obtain ⟨hstep₃,h₃,hd₃⟩ := h₂.reads hapart hd₂ htake
  exact ⟨b,_,.tail (.tail (.tail .refl hstep₁) hstep₂) hstep₃,h₃,hd₃,hpoint,rfl⟩

/-- It stores the byte, and the host gets its reply. -/
theorem answers (h : TransferInvariant places file m stored s)
    (hapart : places.Apart m file.length) (hfits : file.length ≤ 65535) (hd : Delivered s)
    (hgetchar : s.target.point = .getchar) {b : BitVec 8} (hret : s.target.reading = .ret b) :
    ∃ s', Relation.ReflTransGen (SystemStep places) s s' ∧
      TransferInvariant places file m (stored ++ [b]) s' ∧ Resting s' ∧
      s'.host = { s.host with waiting := none } := by
  have hreturned := ReceiveStep.returned (r := s.target.receiver places) hret
  let t := storeByte places s.target { s.target.receiver places with point := .idle } b
  have hstore : SystemStep places s { s with target := t } := silent (.store hgetchar hreturned)
  have h₁ : TransferInvariant places file m (stored ++ [b]) { s with target := t } :=
    h.store hapart hfits hgetchar hreturned
  have hputchar : TargetStep places t [ack] { t with point := .loop } := .putchar rfl
  have hwrite := SystemStep.target (s := { s with target := t }) hputchar
  have h₂ := h₁.putchar rfl
  have hreply : s.replies ++ [ack] = ack::[] := by rw [hd.replies]; rfl
  have hread : readReply s.host ack = some { s.host with waiting := none } := by
    obtain ⟨phase,hphase⟩ := Option.ne_none_iff_exists'.mp hd.waits
    rw [readReply,hphase]
    rfl
  exact ⟨_,.tail (.tail (.tail .refl hstore) hwrite) (.read hreply hread),h₂.read hreply hread,
    ⟨rfl,rfl⟩,rfl⟩

/-- Host and target exchange a byte and its reply. -/
theorem exchange (h : TransferInvariant places file m stored s)
    (hapart : places.Apart m file.length) (hfits : file.length ≤ 65535) (hrest : Resting s)
    (hlen : s.target.len ≠ 0) (hleft : s.host.length ++ s.host.file ≠ []) :
    ∃ s' stored', Relation.ReflTransGen (SystemStep places) s s' ∧
      TransferInvariant places file m stored' s' ∧ Resting s' ∧
      (s.host.length ++ s.host.file).length = (s'.host.length ++ s'.host.file).length + 1 := by
  obtain ⟨b,host,hw⟩ := writeByte_isSome hrest.free hleft
  obtain ⟨t₁,hrun₁,h₁,hd₁,hloop,hsame⟩ := h.deliver hapart hrest hw
  obtain ⟨t₂,hstep₂,h₂,hd₂,hgetchar₂,htest⟩ := h₁.calls hapart hd₁ hloop (by rwa [hsame])
  obtain ⟨c,t₃,hrun₃,h₃,hd₃,hgetchar,hret⟩ := h₂.takes hapart hd₂ hgetchar₂ htest
  obtain ⟨s',hrun₄,h₄,hrest',hhost⟩ := h₃.answers hapart hfits hd₃ hgetchar hret
  obtain ⟨-,-,hbytes⟩ := writeByte_eq_some hw
  refine ⟨s',_,((hrun₁.tail hstep₂).trans hrun₃).trans hrun₄,h₄,hrest',?_⟩
  rw [hbytes,hhost,List.length_cons]

/-- How many bytes the target still expects. -/
theorem left (h : TransferInvariant places file m stored s) (hrest : Resting s) :
    (s.host.length ++ s.host.file).length =
      s.target.len.toNat + if s.target.phase = .length then file.length else 0 := by
  have hstream := congrArg List.length h.stream
  rw [(h.rests hrest.free).1] at hstream
  have htwo : (lengthBytes file.length).length = 2 := rfl
  rcases h.progress with ⟨hlength,hinto⟩ | ⟨hfile,bytes,rfl,hinto⟩
  · have hleft := hinto.left
    rw [hrest.loop,if_neg (by decide)] at hleft
    rw [if_pos hlength]
    simp only [List.length_append,List.length_nil] at hstream ⊢
    omega
  · have hleft := hinto.left
    rw [hrest.loop,if_neg (by decide)] at hleft
    rw [if_neg (by rw [hfile]; decide)]
    simp only [List.length_append,List.length_nil] at hstream ⊢
    omega

/-- After the length the target goes on to the file. -/
theorem goesOn (h : TransferInvariant places file m stored s)
    (hapart : places.Apart m file.length) (hfits : file.length ≤ 65535) (hrest : Resting s) :
    ∃ t, Relation.ReflTransGen (SystemStep places) s { s with target := t } ∧
      TransferInvariant places file m stored { s with target := t } ∧
      Resting { s with target := t } ∧ (t.len = 0 → t.phase = .file) := by
  by_cases hstays : s.target.len = 0 ∧ s.target.phase = .length
  · obtain ⟨hzero,hlength⟩ := hstays
    have hfinish := h.finish hapart hfits hrest.loop hzero
    have hstep : SystemStep places s { s with target := finishCall places s.target } :=
      silent (.finish hrest.loop hzero)
    have hfile : (finishCall places s.target).phase = .file := by
      rw [finishCall,hlength]
    have hloop : (finishCall places s.target).point = .loop := by
      rw [finishCall,hlength]
      exact hrest.loop
    exact ⟨_,.single hstep,hfinish,⟨hrest.free,hloop⟩,fun _ => hfile⟩
  · refine ⟨s.target,.refl,h,hrest,fun hzero => ?_⟩
    cases hphase : s.target.phase with
    | length => exact absurd ⟨hzero,hphase⟩ hstays
    | file => rfl

/-- From any point between two bytes the rest can be sent. -/
theorem completes {n : ℕ} (h : TransferInvariant places file m stored s)
    (hapart : places.Apart m file.length) (hfits : file.length ≤ 65535) (hrest : Resting s)
    (hn : (s.host.length ++ s.host.file).length = n) :
    ∃ s', Relation.ReflTransGen (SystemStep places) s s' ∧ s'.host.Finished ∧
      s'.target.point = .done := by
  induction n generalizing s stored with
  | zero =>
      obtain ⟨t,hrun,ht,hrest',hphase⟩ := h.goesOn hapart hfits hrest
      have hleft := ht.left hrest'
      have hzero : t.len = 0 := by
        change (s.host.length ++ s.host.file).length = t.len.toNat + _ at hleft
        bv_omega
      have hfinish : SystemStep places { s with target := t }
          { s with target := finishCall places t } := silent (.finish hrest'.loop hzero)
      obtain ⟨hlength,hfile⟩ := List.append_eq_nil_iff.mp (List.length_eq_zero_iff.mp hn)
      refine ⟨_,hrun.tail hfinish,⟨hrest.free,hlength,hfile⟩,?_⟩
      change (finishCall places t).point = .done
      rw [finishCall,hphase hzero]
  | succ n ih =>
      obtain ⟨t,hrun,ht,hrest',hphase⟩ := h.goesOn hapart hfits hrest
      have hleft := ht.left hrest'
      change (s.host.length ++ s.host.file).length =
        t.len.toNat + (if t.phase = .length then file.length else 0) at hleft
      have hlen : t.len ≠ 0 := by
        intro hzero
        rw [hphase hzero,if_neg (by decide),hzero,hn] at hleft
        exact Nat.succ_ne_zero n hleft
      obtain ⟨s',stored',hrun',hs',hrest'',hone⟩ :=
        ht.exchange hapart hfits hrest' hlen (List.ne_nil_of_length_eq_add_one hn)
      have hleft' : (s'.host.length ++ s'.host.file).length = n := Nat.succ.inj (hone.symm.trans hn)
      obtain ⟨done,hrun'',hdone⟩ := ih hs' hrest'' hleft'
      exact ⟨done,(hrun.trans hrun').trans hrun'',hdone⟩

end TransferInvariant

end

/-! ## Every transfer -/

/-- A transfer of any file of at most 65535 bytes can be completed. -/
theorem transfer_completes {places : Places} {m : Memory} {file : List (BitVec 8)}
    (hwaits : Waits (driverIn m places.driverState)) (hapart : places.Apart m file.length)
    (hfits : file.length ≤ 65535) :
    ∃ s, Relation.ReflTransGen (SystemStep places)
        (systemInit places { length := lengthBytes file.length, file } m) s ∧
      s.host.Finished ∧ s.target.point = .done :=
  (systemInit_invariant hwaits file).completes hapart hfits ⟨rfl,rfl⟩ rfl

/-- The host takes every file of at most 65535 bytes. Wherever the queue of the
receiver begins and lies, if the file is not put over the driver, the transfer is
safe at every moment and complete once the host has its last reply. -/
theorem transfer_safe {file : List (BitVec 8)} (hfile : file.length ≤ 65535) :
    ∃ host, hostMain file = some host ∧
      ∀ (places : Places) m, Waits (driverIn m places.driverState) →
        places.Apart m file.length →
          ∀ s, Relation.ReflTransGen (SystemStep places) (systemInit places host m) s →
            Safe places file m s := by
  refine ⟨_,hostMain_eq_some hfile,fun places m hwaits hapart s hrun => ?_⟩
  obtain ⟨stored,hs⟩ := (systemInit_invariant hwaits file).run hapart hfile hrun
  exact hs.safe hapart hfile

/-- A driver state, with its buffer at 0x20010000 and its queue at the last place. -/
def lastPlace : Memory := fun a =>
  if a = 0x20000402 then 0x01
  else if a = 0x20000403 then 0x20
  else if a = 0x20000405 ∨ a = 0x20000406 then 23
  else 0

def sramPlaces : Places where
  driverState := 0x20000400
  len := 0x2001EF00
  destination := 0x20001000

theorem sramPlaces_apart : sramPlaces.Apart lastPlace 2 := by
  have hring : sramPlaces.ring lastPlace = 0x20010000 := by decide
  refine ⟨?_,?_,?_⟩ <;> intro a ha
  · rw [hring] at ha
    change ¬ InRange 0x20000400 12 a
    unfold InRange bufferSize at *
    bv_omega
  · change InRange 0x2001EF00 2 a at ha
    rw [Places.OfDriver,hring]
    change ¬ (InRange 0x20010000 24 a ∨ InRange 0x20000400 12 a)
    unfold InRange at *
    bv_omega
  · change InRange 0x20001000 2 a at ha
    rw [Places.OfDriver,hring]
    change ¬ (InRange 0x20010000 24 a ∨ InRange 0x20000400 12 a)
    unfold InRange at *
    bv_omega

/-- A complete transfer of two bytes, with the queue going around the end of its
buffer. -/
theorem transfer_safe_bytes : ∃ host s, hostMain [0x41,ctrlC] = some host ∧
    Relation.ReflTransGen (SystemStep sramPlaces) (systemInit sramPlaces host lastPlace) s ∧
      s.host.Finished ∧ s.target.point = .done ∧ s.target.memory 0x20001000 = 0x41 ∧
      s.target.memory 0x20001001 = ctrlC ∧ Safe sramPlaces [0x41,ctrlC] lastPlace s := by
  have hfile : [0x41,ctrlC].length ≤ 65535 := by decide
  have hwaits : Waits (driverIn lastPlace sramPlaces.driverState) :=
    ⟨⟨by decide,by decide,by decide⟩,rfl,rfl,rfl⟩
  obtain ⟨host,hhost,hsafe⟩ := transfer_safe hfile
  obtain rfl := Option.some.inj hhost
  obtain ⟨s,hrun,hfinished,hdone⟩ :=
    @transfer_completes _ _ [0x41,ctrlC] hwaits sramPlaces_apart hfile
  have hs := hsafe sramPlaces lastPlace hwaits sramPlaces_apart s hrun
  have hstored : s.stored sramPlaces = 2 := hs.finished hfinished
  have hfirst := hs.storedPrefix 0 (by omega)
  have hsecond := hs.storedPrefix 1 (by omega)
  exact ⟨_,s,rfl,hrun,hfinished,hdone,(Option.some.inj hfirst).symm,
    (Option.some.inj hsecond).symm,hs⟩

end TwMonitor.Transfer
