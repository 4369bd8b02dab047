import JarvisKernel.Interrupt.Stubs
import JarvisKernel.Lib.Pic8259
import JarvisKernel.Lib.Table

set_option relaxedAutoImplicit false
set_option autoImplicit false

/-!
# Gates and controllers

`on_init_interrupt_manager` of `src/kernel/interrupt/interrupt.c`: it fills the interrupt descriptor table, and
programs the interrupt controllers and the timer. The addresses of the stubs are those that the linker gives; what
is known of them is that each one is the address of its own code.

## Main definitions

* `Jarvis.GateDescriptor`, `Jarvis.setInterruptDescriptorTableEntry` — the gates.
* `Jarvis.EntryPoint`, `Jarvis.entryPointOf` — what the gates lead to.
* `Jarvis.InterruptManager`, `Jarvis.onInitInterruptManager` — the interrupt manager.

## Main results

* `Jarvis.gate_onInitInterruptManager` — every gate leads where it should, in the ring that it should.
* `Jarvis.programmed_onInitInterruptManager` — the controllers afterwards.
-/

namespace Jarvis

open Pic8259

/-! ## The table -/

/-- `GateDescriptor`. -/
structure GateDescriptor where
  handlerAddressLowBits : BitVec 16
  gdtGetCodeSelector : BitVec 16
  reserved : BitVec 8
  access : BitVec 8
  handlerAddressHighBits : BitVec 16

/-- `set_interrupt_descriptor_table_entry`. -/
def setInterruptDescriptorTableEntry (table : BitVec 8 → GateDescriptor) (interruptNumber : BitVec 8)
    (codeSelectorOffset : BitVec 16) (handler : BitVec 32) (privilegeLevel descriptorType : BitVec 8) :
    BitVec 8 → GateDescriptor :=
  Function.update table interruptNumber
    { handlerAddressLowBits := handler.setWidth 16
      gdtGetCodeSelector := codeSelectorOffset
      reserved := 0
      access := 0x80 ||| (privilegeLevel &&& 3) <<< 5 ||| descriptorType
      handlerAddressHighBits := (handler >>> 16).setWidth 16 }

/-- What gates lead to: `handle_interrrupt_ignore`, the stubs, and `handle_syscall`. -/
inductive EntryPoint
  | ignore
  | stub (s : Stub)
  | syscall

/-- `InterruptManager`, without the handlers. -/
structure InterruptManager where
  descriptorTable : BitVec 8 → GateDescriptor
  picMasterCommand : BitVec 16
  picMasterData : BitVec 16
  picSlaverCommand : BitVec 16
  picSlaverData : BitVec 16

/-- The gates that are set after all of them were made to lead to `handle_interrrupt_ignore`, with their rings. -/
def gateEntries : List (BitVec 8 × EntryPoint × BitVec 8) :=
  exceptionNumbers.attach.map (fun num => (num.1, .stub (.exception num.1 num.2), 0)) ++
    (requestNumbers.attach.map (fun num => (irqBase + num.1, .stub (.interruptRequest num.1 num.2), 0)) ++
      [(0x80, .syscall, 3)])

/-- The loop over all gates. -/
def ignoreAll (address : EntryPoint → BitVec 32) (table : BitVec 8 → GateDescriptor) : BitVec 8 → GateDescriptor :=
  (List.range 256).foldl (fun t i =>
    setInterruptDescriptorTableEntry t (BitVec.ofNat 8 i) codeSegment (address .ignore) 0 0xE) table

/-- `init_pit`: the writes to the ports. -/
def initPit : List (BitVec 16 × BitVec 8) :=
  let divisor : BitVec 16 := 1193
  [(0x43, 0x36), (0x40, divisor.setWidth 8), (0x40, (divisor >>> 8).setWidth 8)]

/-- `on_init_interrupt_manager`, with the writes to the ports. -/
def onInitInterruptManager (address : EntryPoint → BitVec 32) (manager : InterruptManager) :
    InterruptManager × List (BitVec 16 × BitVec 8) :=
  let manager : InterruptManager := { manager with
    picMasterCommand := 0x20
    picMasterData := 0x21
    picSlaverCommand := 0xA0
    picSlaverData := 0xA1 }
  let table := gateEntries.foldl (fun t g =>
    setInterruptDescriptorTableEntry t g.1 codeSegment (address g.2.1) g.2.2 0xE)
      (ignoreAll address manager.descriptorTable)
  ({ manager with descriptorTable := table },
    [(manager.picMasterCommand, 0x11), (manager.picSlaverCommand, 0x11),
      (manager.picMasterData, irqBase), (manager.picSlaverData, irqBase + 8),
      (manager.picMasterData, 0x04), (manager.picSlaverData, 0x02),
      (manager.picMasterData, 0x01), (manager.picSlaverData, 0x01),
      (manager.picMasterData, 0x00), (manager.picSlaverData, 0x00)] ++ initPit)

/-! ## What the processor makes of a gate -/

namespace GateDescriptor

/-- The address to which a gate leads. -/
def target (g : GateDescriptor) : BitVec 32 :=
  g.handlerAddressHighBits.setWidth 32 <<< 16 ||| g.handlerAddressLowBits.setWidth 32

/-- The gate is present, and interrupts are disabled when it is taken. -/
def IsInterruptGate (g : GateDescriptor) : Prop := g.access &&& 0x8F = 0x8E

/-- The outermost ring from which the gate can be taken by an `int`. -/
def ring (g : GateDescriptor) : BitVec 8 := g.access >>> 5 &&& 3

end GateDescriptor

local instance lawfulBEq_vector : LawfulBEq (BitVec 8) := instLawfulBEq

/-- The number of a vector among the stubs, `handle_syscall` for the vector of system calls, and
`handle_interrrupt_ignore` for all others. -/
def entryPointOf (v : BitVec 8) : EntryPoint :=
  if h : v ∈ exceptionNumbers then .stub (.exception v h)
  else if h : v - irqBase ∈ requestNumbers then .stub (.interruptRequest (v - irqBase) h)
  else if v = 0x80 then .syscall
  else .ignore

/-- The gate that leads to an entry point. -/
def gateTo (address : EntryPoint → BitVec 32) (e : EntryPoint) (ring : BitVec 8) : GateDescriptor where
  handlerAddressLowBits := (address e).setWidth 16
  gdtGetCodeSelector := codeSegment
  reserved := 0
  access := 0x80 ||| (ring &&& 3) <<< 5 ||| 0xE
  handlerAddressHighBits := (address e >>> 16).setWidth 16

/-! ## The gates -/

/-- A 32-bit number comes back from its two halves. -/
lemma halves_or (x : BitVec 32) :
    ((x >>> 16).setWidth 16).setWidth 32 <<< 16 ||| (x.setWidth 16).setWidth 32 = x := by
  refine BitVec.eq_of_getLsbD_eq fun i hi => ?_
  rw [BitVec.getLsbD_or, BitVec.getLsbD_shiftLeft, BitVec.getLsbD_setWidth, BitVec.getLsbD_setWidth,
    BitVec.getLsbD_ushiftRight, BitVec.getLsbD_setWidth, BitVec.getLsbD_setWidth]
  rcases Nat.lt_or_ge i 16 with hlow | hhigh
  · simp [hlow, hi]
  · have hsum : 16 + (i - 16) = i := by omega
    have hlt : i - 16 < 16 := by omega
    rw [hsum, decide_eq_true hi, decide_eq_true hlt, decide_eq_false (Nat.not_lt.2 hhigh)]
    simp
    omega

/-- What a gate says that was set. -/
lemma gateTo_spec (address : EntryPoint → BitVec 32) (e : EntryPoint) {ring : BitVec 8} (hring : ring = 0 ∨ ring = 3) :
    (gateTo address e ring).target = address e ∧ (gateTo address e ring).IsInterruptGate ∧
      (gateTo address e ring).ring = ring ∧ (gateTo address e ring).gdtGetCodeSelector = codeSegment := by
  have haccess : ∀ r : BitVec 8, r = 0 ∨ r = 3 →
      (0x80 ||| (r &&& 3) <<< 5 ||| 0xE) &&& 0x8F = 0x8E ∧ (0x80 ||| (r &&& 3) <<< 5 ||| 0xE) >>> 5 &&& 3 = r := by
    rintro r (rfl | rfl) <;> decide
  exact ⟨halves_or _, (haccess ring hring).1, (haccess ring hring).2, rfl⟩

/-- All gates lead to `handle_interrrupt_ignore` after the loop. -/
lemma ignoreAll_apply (address : EntryPoint → BitVec 32) (table : BitVec 8 → GateDescriptor) (v : BitVec 8) :
    ignoreAll address table v = gateTo address .ignore 0 := by
  have hloop : ∀ (is : List ℕ) (t : BitVec 8 → GateDescriptor), v.toNat ∈ is ∨ t v = gateTo address .ignore 0 →
      is.foldl (fun t i => setInterruptDescriptorTableEntry t (BitVec.ofNat 8 i) codeSegment (address .ignore) 0 0xE)
        t v = gateTo address .ignore 0 := by
    intro is
    induction is with
    | nil => exact fun t h => h.resolve_left List.not_mem_nil
    | cons i is ih =>
      intro t h
      refine ih _ ?_
      by_cases hv : v = BitVec.ofNat 8 i
      · subst hv
        exact .inr (Function.update_self ..)
      · have hne : v.toNat ≠ i := by
          rintro rfl
          exact hv (by rw [BitVec.ofNat_toNat, BitVec.setWidth_eq])
        rcases h with h | h
        · exact .inl ((List.mem_cons.1 h).resolve_left hne)
        · exact .inr ((Function.update_of_ne hv ..).trans h)
  exact hloop _ _ (.inl (List.mem_range.2 v.isLt))

/-- The vectors of the gates that are set afterwards. -/
lemma map_fst_gateEntries :
    gateEntries.map Prod.fst = exceptionNumbers ++ (requestNumbers.map (irqBase + ·) ++ [0x80]) := rfl

/-- A gate that is set afterwards is set once. -/
lemma foldl_gates {l : List (BitVec 8 × EntryPoint × BitVec 8)} (address : EntryPoint → BitVec 32)
    (table : BitVec 8 → GateDescriptor) (v : BitVec 8) (hnodup : (l.map Prod.fst).Nodup) :
    (∀ e ring, (v, e, ring) ∈ l → l.foldl (fun t g =>
        setInterruptDescriptorTableEntry t g.1 codeSegment (address g.2.1) g.2.2 0xE) table v = gateTo address e ring) ∧
      (v ∉ l.map Prod.fst → l.foldl (fun t g =>
        setInterruptDescriptorTableEntry t g.1 codeSegment (address g.2.1) g.2.2 0xE) table v = table v) := by
  obtain ⟨hmem, hnot⟩ := Table.foldl_update_key (fun g : BitVec 8 × EntryPoint × BitVec 8 => g.1)
    (fun g => gateTo address g.2.1 g.2.2) hnodup table v
  refine ⟨fun e ring h => hmem _ h rfl, fun h => hnot fun g hg hv => ?_⟩
  exact h (List.mem_map.2 ⟨g, hg, hv⟩)

/-- **Every gate** leads to the entry point of its vector with interrupts disabled, and only that of system calls can
be taken from the outer rings. -/
lemma gate_onInitInterruptManager (address : EntryPoint → BitVec 32) (manager : InterruptManager) (v : BitVec 8) :
    ((onInitInterruptManager address manager).1.descriptorTable v).target = address (entryPointOf v) ∧
      ((onInitInterruptManager address manager).1.descriptorTable v).IsInterruptGate ∧
      ((onInitInterruptManager address manager).1.descriptorTable v).ring = (if v = 0x80 then 3 else 0) ∧
      ((onInitInterruptManager address manager).1.descriptorTable v).gdtGetCodeSelector = codeSegment := by
  have hnodup : (gateEntries.map Prod.fst).Nodup := by
    rw [map_fst_gateEntries]
    decide
  obtain ⟨hmem, hnot⟩ := foldl_gates address (ignoreAll address manager.descriptorTable) v hnodup
  suffices hgate : (onInitInterruptManager address manager).1.descriptorTable v =
      gateTo address (entryPointOf v) (if v = 0x80 then 3 else 0) by
    rw [hgate]
    refine gateTo_spec address _ ?_
    split_ifs
    · exact .inr rfl
    · exact .inl rfl
  have hring : ∀ u ∈ exceptionNumbers ++ requestNumbers.map (irqBase + ·), u ≠ 0x80 := by decide
  unfold entryPointOf
  by_cases hexception : v ∈ exceptionNumbers
  · rw [dif_pos hexception, if_neg (hring v (List.mem_append_left _ hexception))]
    exact hmem _ _ (List.mem_append_left _ (List.mem_map.2 ⟨⟨v, hexception⟩, List.mem_attach .., rfl⟩))
  rw [dif_neg hexception]
  have hsum : irqBase + (v - irqBase) = v := by rw [BitVec.add_comm, BitVec.sub_add_cancel]
  by_cases hrequest : v - irqBase ∈ requestNumbers
  · have hv : v ∈ requestNumbers.map (irqBase + ·) := List.mem_map.2 ⟨_, hrequest, hsum⟩
    rw [dif_pos hrequest, if_neg (hring v (List.mem_append_right _ hv))]
    refine hmem _ _ (List.mem_append_right _ (List.mem_append_left _ (List.mem_map.2
      ⟨⟨v - irqBase, hrequest⟩, List.mem_attach .., ?_⟩)))
    rw [hsum]
  rw [dif_neg hrequest]
  by_cases hsyscall : v = 0x80
  · rw [if_pos hsyscall, if_pos hsyscall]
    refine hmem _ _ (List.mem_append_right _ (List.mem_append_right _ ?_))
    rw [hsyscall]
    exact List.mem_singleton_self _
  · rw [if_neg hsyscall, if_neg hsyscall]
    refine (hnot ?_).trans (ignoreAll_apply ..)
    rw [map_fst_gateEntries, List.mem_append, List.mem_append, List.mem_singleton]
    rintro (h | h | h)
    · exact hexception h
    · obtain ⟨num, hnum, rfl⟩ := List.mem_map.1 h
      rw [BitVec.add_comm, BitVec.add_sub_cancel] at hrequest
      exact hrequest hnum
    · exact hsyscall h

/-- **The controllers** are set up with the vectors of the stubs. -/
lemma programmed_onInitInterruptManager (address : EntryPoint → BitVec 32) (manager : InterruptManager) (p : Pair) :
    (p.writes (onInitInterruptManager address manager).2).Programmed irqBase (irqBase + 8) ∧
      (p.writes (onInitInterruptManager address manager).2).Idle ∧
      ∀ l, (p.writes (onInitInterruptManager address manager).2).pending l = false :=
  p.programmed_setUp (by decide) (by decide)

end Jarvis
