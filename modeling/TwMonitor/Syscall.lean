import TwMonitor.ExceptionStack
import TwMonitor.NarrowEncodings
import TwMonitor.Printf

/-!
# System calls

SVC takes the exception of the supervisor call with the address behind it in the frame. The
handler reads the number back from the instruction, prints, and changes at most the program
counter of the frame. So a program goes on behind each call but the one that exits, with its
registers as they were.
-/
namespace TwMonitor.Syscall
open BitLayout ByteMemory ExceptionStack Printf T32 Thumb

/-- The number of the exception. -/
def svCall : ℕ := 11

/-- SVC at the program counter. -/
def executeSvc (vector : ℕ → Address) (c : Cpu) : Cpu :=
  exceptionEntry vector svCall { c with context := { c.context with pc := c.context.pc + 2 } }

section
variable (exitToMonitor : Address)

/-- What is printed, and the memory with the frame. The other memory is the one after it. -/
def syscallHandler (syscallNumber : BitVec 8) (frame : Address) (m printed : Memory) :
    Option (List Char × Memory) :=
  let r0 := load32 m frame
  if syscallNumber = 0 then
    (ioPrintf "Exit %u\r\n".toList [.word r0]).map fun text =>
      (text,store32 printed (frame + 24) exitToMonitor)
  else if syscallNumber = 1 then
    (ioPrintf "%d\r\n".toList [.word r0]).map fun text => (text,printed)
  else
    (ioPrintf "Invalid system call function #%u!\r\n".toList
      [.word (syscallNumber.setWidth 32)]).map fun text => (text,printed)

variable (prints : Cpu → Memory)

/-- `_syscall` with the return from `syscall_handler`. -/
def syscallEntry (c : Cpu) : Option (List Char × Cpu) := do
  let pc := load32 c.memory (c.sp + 24)
  let syscallNumber := (load16 c.memory (pc - 2)).setWidth 8
  let (text,m) ← syscallHandler exitToMonitor syscallNumber c.sp c.memory (prints c)
  let c ← exceptionReturn c.context.lr { c with memory := m }
  some (text,c)

variable (vector : ℕ → Address)

/-- Calls one behind the other. -/
def svcRun : ℕ → Cpu → Option (List Char × Cpu)
  | 0,c => some ([],c)
  | k + 1,c => do
    let (text,c) ← syscallEntry exitToMonitor prints (executeSvc vector c)
    let (rest,c) ← svcRun k c
    some (text ++ rest,c)

end

/-! ## What is printed -/

/-- For the number of the call and the argument. -/
def syscallText (syscallNumber : BitVec 8) (r0 : BitVec 32) : List Char :=
  if syscallNumber = 0 then "Exit ".toList ++ decimal r0 ++ "\r\n".toList
  else if syscallNumber = 1 then signedDecimal r0 ++ "\r\n".toList
  else "Invalid system call function #".toList ++ decimal (syscallNumber.setWidth 32) ++
    "!\r\n".toList

theorem syscallHandler_eq (exitToMonitor : Address) (syscallNumber : BitVec 8) (frame : Address)
    (m printed : Memory) : syscallHandler exitToMonitor syscallNumber frame m printed =
      some (syscallText syscallNumber (load32 m frame),
        if syscallNumber = 0 then store32 printed (frame + 24) exitToMonitor else printed) := by
  have hend : ioPrintf "\r\n".toList [] = some "\r\n".toList := ioPrintf_plain (by decide)
  have hexit : ioPrintf "Exit %u\r\n".toList [.word (load32 m frame)] =
      some ("Exit ".toList ++ decimal (load32 m frame) ++ "\r\n".toList) := by
    have hsplit : "Exit %u\r\n".toList = "Exit ".toList ++ '%' :: 'u' :: "\r\n".toList := by decide
    rw [hsplit,ioPrintf_text (by decide),ioPrintf_unsigned,hend,Option.map_some,Option.map_some,
      List.append_assoc]
  have hdecimal : ioPrintf "%d\r\n".toList [.word (load32 m frame)] =
      some (signedDecimal (load32 m frame) ++ "\r\n".toList) := by
    have hsplit : "%d\r\n".toList = '%' :: 'd' :: "\r\n".toList := by decide
    rw [hsplit,ioPrintf_signed,hend,Option.map_some]
  have hinvalid : ioPrintf "Invalid system call function #%u!\r\n".toList
      [.word (syscallNumber.setWidth 32)] = some ("Invalid system call function #".toList ++
        decimal (syscallNumber.setWidth 32) ++ "!\r\n".toList) := by
    have hsplit : "Invalid system call function #%u!\r\n".toList =
        "Invalid system call function #".toList ++ '%' :: 'u' :: "!\r\n".toList := by decide
    have htail : ioPrintf "!\r\n".toList [] = some "!\r\n".toList := ioPrintf_plain (by decide)
    rw [hsplit,ioPrintf_text (by decide),ioPrintf_unsigned,htail,Option.map_some,Option.map_some,
      List.append_assoc]
  unfold syscallHandler syscallText
  dsimp only
  split_ifs with hzero hone
  · rw [hexit,Option.map_some]
  · rw [hdecimal,Option.map_some]
  · rw [hinvalid,Option.map_some]

/-- The frame that the handler leaves is returned from. -/
theorem syscallEntry_eq (exitToMonitor : Address) (prints : Cpu → Memory) {n : BitVec 8} {c : Cpu}
    (hnumber : (load16 c.memory (load32 c.memory (c.sp + 24) - 2)).setWidth 8 = n) :
    syscallEntry exitToMonitor prints c =
      (exceptionReturn c.context.lr
        { c with memory :=
            if n = 0 then store32 (prints c) (c.sp + 24) exitToMonitor else prints c }).map
        fun c' => (syscallText n (load32 c.memory c.sp),c') := by
  unfold syscallEntry
  dsimp only
  rw [hnumber,syscallHandler_eq,Option.bind_eq_bind,Option.bind_some,Option.map_eq_bind]
  rfl

/-! ## The number of the call -/

/-- The low byte of what the assembler writes. -/
theorem svcT1_number {n : BitVec 8} {h : BitVec 16}
    (hword : (encodeSvcT1 { imm8 := n.setWidth 32 }).word = some h) : h.setWidth 8 = n := by
  have hparts : decodeSvcT1 h = { imm8 := n.setWidth 32 } :=
    NarrowEncoding.svcT1.decode_word hword
  have himm : bitExtract h 0 8 = n.setWidth 32 := congrArg SvcT1Parts.imm8 hparts
  have hlow := congrArg BitVec.toNat himm
  apply BitVec.eq_of_toNat_eq
  rw [bitExtract,extract_toNat h 0 8 (by decide),BitVec.toNat_setWidth] at hlow
  rw [BitVec.toNat_setWidth]
  have hn := n.isLt
  omega

/-- The calls are at the address, in memory that is not the stack's. -/
def CallsAt (code : Address → Prop) (m : Memory) : Address → List (BitVec 8) → Prop
  | _,[] => True
  | a,n::rest =>
      (encodeSvcT1 { imm8 := n.setWidth 32 }).word = some (load16 m a) ∧
        (∀ x, InRange a 2 x → code x) ∧ CallsAt code m (a + 2) rest

theorem CallsAt.congr {code : Address → Prop} {m m' : Memory} {a : Address}
    {numbers : List (BitVec 8)} (h : CallsAt code m a numbers)
    (hsame : ∀ x, code x → m' x = m x) : CallsAt code m' a numbers := by
  induction numbers generalizing a with
  | nil => trivial
  | cons n rest ih =>
      obtain ⟨hword,hcode,hrest⟩ := h
      have hload : load16 m' a = load16 m a := by
        refine load16_congr (hsame a (hcode a ?_)) (hsame (a + 1) (hcode (a + 1) ?_))
        all_goals
          unfold InRange
          bv_omega
      exact ⟨by rw [hload]; exact hword,hcode,ih hrest⟩

/-! ## One call and the next -/

section
variable {exitToMonitor stackTop : Address} {prints : Cpu → Memory} {vector : ℕ → Address}
  {code : Address → Prop} {c : Cpu} {n : BitVec 8} {numbers : List (BitVec 8)}

/-- A thread that can make calls. -/
structure Ready (code : Address → Prop) (c : Cpu) : Prop where
  coherent : c.Coherent
  thread : c.active = ∅
  room : 36 ≤ c.sp.toNat
  apart : ∀ x, code x → x.toNat + 36 < c.sp.toNat ∨ c.sp.toNat ≤ x.toNat

/-- What a call keeps of the memory: the code, and the stack in use. -/
def Kept (stackTop : Address) (code : Address → Prop) (sp a : Address) : Prop :=
  sp.toNat ≤ a.toNat ∧ a.toNat < stackTop.toNat ∨ code a

/-- The handler with this stack pointer prints without writing there. -/
def Prints (sp stackTop : Address) (code : Address → Prop) (prints : Cpu → Memory) : Prop :=
  ∀ d : Cpu, d.sp = sp → ∀ a, Kept stackTop code sp a → prints d a = d.memory a

/-- The thread behind the call. -/
def afterCall (exitToMonitor : Address) (n : BitVec 8) (m : Memory) (c : Cpu) : Cpu :=
  { c with
    memory := m
    context := { c.context with pc := if n = 0 then exitToMonitor else c.context.pc + 2 } }

/-- The frame is below the stack in use. -/
theorem Ready.frame (h : Ready code c) : c.sp.toNat ≤ (executeSvc vector c).sp.toNat + 36 ∧
    (executeSvc vector c).sp.toNat + 32 ≤ c.sp.toNat :=
  (@exceptionEntry_aligned vector { c with context := { c.context with pc := c.context.pc + 2 } }
    svCall h.coherent.aligned h.room).2

/-- And away from the code. -/
theorem Ready.outside (h : Ready code c) {a : Address} (ha : Kept stackTop code c.sp a) :
    ¬InRange (executeSvc vector c).sp 32 a := by
  obtain ⟨hlow,hhigh⟩ := @Ready.frame vector code c h
  have hsp := c.sp.isLt
  intro hin
  rw [inRange_iff (by omega)] at hin
  rcases ha with hstack | hcode
  · omega
  · have hapart := h.apart a hcode
    omega

theorem Ready.executeSvc_memory (h : Ready code c) {a : Address} (ha : Kept stackTop code c.sp a) :
    (executeSvc vector c).memory a = c.memory a :=
  storeContext_frame _ _ (@Ready.outside stackTop vector code c h a ha)

theorem syscallEntry_executeSvc (h : Ready code c)
    (hcalls : CallsAt code c.memory c.context.pc (n::numbers))
    (htop : c.sp.toNat ≤ stackTop.toNat)
    (hprints : Prints (executeSvc vector c).sp stackTop code prints) :
    ∃ m, syscallEntry exitToMonitor prints (executeSvc vector c) =
        some (syscallText n c.context.r0,afterCall exitToMonitor n m c) ∧
      ∀ a, Kept stackTop code c.sp a → m a = c.memory a := by
  obtain ⟨hword,hcode,-⟩ := hcalls
  obtain ⟨hlow,hhigh⟩ := @Ready.frame vector code c h
  have hsaved := exceptionEntry_saved vector svCall
    { c with context := { c.context with pc := c.context.pc + 2 } }
  have hr0 : load32 (executeSvc vector c).memory (executeSvc vector c).sp = c.context.r0 :=
    congrArg Context.r0 hsaved
  have hpc : load32 (executeSvc vector c).memory ((executeSvc vector c).sp + 24) =
      c.context.pc + 2 := congrArg Context.pc hsaved
  -- the number comes from the instruction that made the call
  have hload : load16 (executeSvc vector c).memory c.context.pc = load16 c.memory c.context.pc := by
    refine load16_congr (@Ready.executeSvc_memory stackTop vector code c h _ (.inr (hcode _ ?_)))
      (@Ready.executeSvc_memory stackTop vector code c h _ (.inr (hcode _ ?_)))
    all_goals
      unfold InRange
      bv_omega
  have hnumber : (load16 (executeSvc vector c).memory
      (load32 (executeSvc vector c).memory
        ((executeSvc vector c).sp + 24) - 2)).setWidth 8 = n := by
    rw [hpc,BitVec.add_sub_cancel,hload]
    exact svcT1_number hword
  have hprinted : loadContext (prints (executeSvc vector c)) (executeSvc vector c).sp =
      loadContext (executeSvc vector c).memory (executeSvc vector c).sp := by
    refine loadContext_congr fun a ha => hprints _ rfl a (.inl ?_)
    have hsp := c.sp.isLt
    rw [inRange_iff (by omega)] at ha
    omega
  have hmemory {a : Address} (ha : Kept stackTop code c.sp a) :
      prints (executeSvc vector c) a = c.memory a := by
    rw [hprints _ rfl a ?_,@Ready.executeSvc_memory stackTop vector code c h a ha]
    exact ha.imp_left fun hstack => ⟨by omega,hstack.2⟩
  have hactive : svCall ∉ c.active := by
    rw [h.thread]
    exact Finset.notMem_empty svCall
  let m := if n = 0 then store32 (prints (executeSvc vector c)) ((executeSvc vector c).sp + 24)
    exitToMonitor else prints (executeSvc vector c)
  have hframe : loadContext m (executeSvc vector c).sp =
      { c.context with
        pc := if n = 0 then exitToMonitor else c.context.pc + 2
        xpsr := markAligned c.context.xpsr (c.sp &&& 4 != 0) } := by
    by_cases hzero : n = 0
    · simp only [m,if_pos hzero]
      rw [loadContext_store_pc,hprinted]
      exact congrArg (fun k : Context => { k with pc := exitToMonitor }) hsaved
    · simp only [m,if_neg hzero]
      rw [hprinted]
      exact hsaved
  refine ⟨m,?_,fun a ha => ?_⟩
  · have hreturn := @exceptionReturn_entry vector svCall
      { c with context := { c.context with pc := c.context.pc + 2 } } m
      ⟨h.coherent.thread,h.coherent.aligned,h.coherent.xpsr⟩ (by decide) hactive h.room _ hframe
    have hlr : (executeSvc vector c).context.lr = (exceptionEntry vector svCall
      { c with context := { c.context with pc := c.context.pc + 2 } }).context.lr := rfl
    rw [syscallEntry_eq _ _ hnumber,hr0,hlr]
    exact congrArg (Option.map (syscallText n c.context.r0,·)) hreturn
  · by_cases hzero : n = 0
    · have hframe : ¬InRange ((executeSvc vector c).sp + 24) 4 a := by
        have hout := @Ready.outside stackTop vector code c h a ha
        unfold InRange at hout ⊢
        bv_omega
      simp only [m,if_pos hzero]
      rw [store32_ne _ _ hframe,hmemory ha]
    · simp only [m,if_neg hzero]
      exact hmemory ha

theorem Ready.after (h : Ready code c) (m : Memory) :
    Ready code (afterCall exitToMonitor n m c) :=
  ⟨⟨h.coherent.thread,h.coherent.aligned,h.coherent.xpsr⟩,h.thread,h.room,h.apart⟩

theorem svcRun_cons {c' : Cpu} {text : List Char} (k : ℕ)
    (hcall : syscallEntry exitToMonitor prints (executeSvc vector c) = some (text,c')) :
    svcRun exitToMonitor prints vector (k + 1) c =
      (svcRun exitToMonitor prints vector k c').map fun done => (text ++ done.1,done.2) := by
  rw [svcRun,hcall,Option.bind_eq_bind,Option.bind_some,Option.map_eq_bind]
  rfl

end

/-- Each call of a thread prints, and leaves all registers as they were, the stack in use and the
code. The last is the one that exits: the thread goes on with the monitor. -/
theorem svcRun_exits {exitToMonitor stackTop : Address} {prints : Cpu → Memory}
    {vector : ℕ → Address} {code : Address → Prop} {c : Cpu} {numbers : List (BitVec 8)}
    (h : Ready code c) (htop : c.sp.toNat ≤ stackTop.toNat)
    (hprints : Prints (executeSvc vector c).sp stackTop code prints)
    (hcalls : CallsAt code c.memory c.context.pc (numbers ++ [0])) (hnumbers : 0 ∉ numbers) :
    ∃ m, svcRun exitToMonitor prints vector (numbers.length + 1) c =
        some ((numbers ++ [0]).flatMap (syscallText · c.context.r0),
          { c with memory := m, context := { c.context with pc := exitToMonitor } }) ∧
      ∀ a, Kept stackTop code c.sp a → m a = c.memory a := by
  induction numbers generalizing c with
  | nil =>
      obtain ⟨m,hcall,hkept⟩ := @syscallEntry_executeSvc exitToMonitor stackTop prints vector
        code c 0 [] h hcalls htop hprints
      refine ⟨m,?_,hkept⟩
      rw [List.length_nil,svcRun_cons 0 hcall,svcRun,Option.map_some]
      rfl
  | cons n rest ih =>
      rw [List.cons_append] at hcalls
      obtain ⟨m,hcall,hkept⟩ := @syscallEntry_executeSvc exitToMonitor stackTop prints vector
        code c n (rest ++ [0]) h hcalls htop hprints
      have hn : n ≠ 0 := fun heq => hnumbers (heq ▸ List.mem_cons_self)
      have hpc : (afterCall exitToMonitor n m c).context.pc = c.context.pc + 2 := if_neg hn
      have hnext : CallsAt code (afterCall exitToMonitor n m c).memory
          (afterCall exitToMonitor n m c).context.pc (rest ++ [0]) := by
        rw [hpc]
        exact hcalls.2.2.congr fun a ha => hkept a (.inr ha)
      have hsp :
          (executeSvc vector (afterCall exitToMonitor n m c)).sp = (executeSvc vector c).sp :=
        rfl
      obtain ⟨m',hrun,hkept'⟩ := @ih (afterCall exitToMonitor n m c) (h.after m) htop
        (hsp ▸ hprints) hnext
        fun hin => hnumbers (List.mem_cons_of_mem n hin)
      refine ⟨m',?_,fun a ha => (hkept' a ha).trans (hkept a ha)⟩
      rw [List.length_cons,svcRun_cons _ hcall,hrun,Option.map_some]
      rfl

/-- `svc 1` and `svc 0` in flash, with minus five in R0. -/
def callingCpu : Cpu where
  context :=
    { r0 := -5, r1 := 0, r2 := 0, r3 := 0, r12 := 0, lr := 0, pc := 0x08000100
      xpsr := 1#32 <<< 24 }
  sp := 0x20020000
  active := ∅
  memory := store16 (store16 (fun _ => 0) 0x08000100 0xDF01) 0x08000102 0xDF00

theorem svcRun_exits_negative : ∃ m, svcRun 0x200 Cpu.memory (fun _ => 0) 2 callingCpu =
    some ("-5\r\nExit 42_9496_7291\r\n".toList,
      { callingCpu with memory := m, context := { callingCpu.context with pc := 0x200 } }) := by
  have hcode (a : Address) (ha : InRange 0x08000100 4 a) :
      a.toNat + 36 < callingCpu.sp.toNat ∨ callingCpu.sp.toNat ≤ a.toNat := by
    rw [inRange_iff (by decide)] at ha
    refine .inl ?_
    show a.toNat + 36 < 0x20020000
    have hhigh : a.toNat < 0x08000100 + 4 := ha.2
    omega
  have hready : Ready (InRange 0x08000100 4) callingCpu :=
    ⟨⟨by decide,by decide,by decide⟩,rfl,by decide,hcode⟩
  have hcalls :
      CallsAt (InRange 0x08000100 4) callingCpu.memory callingCpu.context.pc ([1] ++ [0]) := by
    refine ⟨by decide,fun x hx => ?_,by decide,fun x hx => ?_,trivial⟩
    · have hlow : (x - 0x08000100).toNat < 2 := hx
      exact Nat.lt_of_lt_of_le hlow (by decide)
    · have hhigh : (x - (0x08000100 + 2)).toNat < 2 := hx
      unfold InRange
      bv_omega
  obtain ⟨m,hrun,-⟩ := @svcRun_exits 0x200 0x20020000 Cpu.memory (fun _ => 0)
    (InRange 0x08000100 4) callingCpu [1] hready (by decide) (fun _ _ _ _ => rfl) hcalls (by decide)
  have htext : ([1] ++ [0] : List (BitVec 8)).flatMap (syscallText · callingCpu.context.r0) =
      "-5\r\nExit 42_9496_7291\r\n".toList := by decide +kernel
  rw [htext] at hrun
  exact ⟨m,hrun⟩

end TwMonitor.Syscall
