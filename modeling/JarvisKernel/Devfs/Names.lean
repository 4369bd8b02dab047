import JarvisKernel.Devfs.Defs
import JarvisKernel.Lib.KeyedTable
import JarvisKernel.Lib.Run

set_option relaxedAutoImplicit false
set_option autoImplicit false

/-!
# Names of devices

Devices are registered and looked up by their names. A name is stored in a field of 32 bytes, so that it is
cut after 31 bytes, but it is looked up in full: a device with a longer name is not found, and it can be
registered again. As long as names are shorter the table is a map from names to devices.

## Main definitions

* `Jarvis.Devfs.Named` — the table, with the devices that were registered and not unregistered.
* `Jarvis.Devfs.KeepsNames` — what is wanted of the table.
* `Jarvis.Devfs.NameFits` — a name is shorter than the field, or no device is registered any more.

## Main results

* `Jarvis.Devfs.NameInv.nameStep` — a call with a name that fits.
* `Jarvis.Devfs.NameInv.not_keepsNames` — a call with another name.
* `Jarvis.Devfs.keepsNames_iff` — in which runs the table is as is wanted.
-/

namespace Jarvis

namespace Devfs

/-! ## Calls -/

/-- The table, and the devices that were registered and not unregistered, with the names that were given. -/
structure Named where
  devfs : Devfs
  live : List DeviceNode

/-- The calls that change the table. -/
inductive NameCall where
  | register (node : DeviceNode)
  | unregister (name : CString)

/-- `devfs_register_device` for a device with the given name and data. -/
def registerNode (s : Devfs) (node : DeviceNode) : Devfs × ℤ :=
  s.devfsRegisterDevice node.name node.type node.major node.minor node.deviceData

/-- One call. -/
def nameStep (s : Named) : NameCall → Option Named
  | .register node =>
    match s.devfs.registerNode node with
    | (t, result) => some ⟨t, if result = 0 then node :: s.live else s.live⟩
  | .unregister name =>
    match s.devfs.devfsUnregisterDevice name with
    | (t, result) => some ⟨t, if result = 0 then s.live.filter fun node => node.name ≠ name else s.live⟩

/-- The state after `devfs_init`. -/
def namedStart : Named := ⟨devfsInit, []⟩

/-- A device is found under its name, with its own data. -/
def Finds (s : Devfs) (node : DeviceNode) : Prop :=
  ∃ i, s.findDeviceByName node.name = some i ∧ s.devices i = node

/-- What is wanted: names are distinct, registered devices are found and their names refused, and
unregistering removes only the device of the name. -/
structure KeepsNames (s : Named) : Prop where
  distinct : ∀ i < s.devfs.numDevices, ∀ j < s.devfs.numDevices,
    (s.devfs.devices i).name = (s.devfs.devices j).name → i = j
  finds : ∀ node ∈ s.live, s.devfs.Finds node
  refuses : ∀ node ∈ s.live, ∀ other : DeviceNode, other.name = node.name →
    s.devfs.registerNode other = (s.devfs, -1)
  removes : ∀ name t, s.devfs.devfsUnregisterDevice name = (t, 0) →
    t.findDeviceByName name = none ∧ ∀ node, node.name ≠ name → (t.Finds node ↔ s.devfs.Finds node)

/-- The name of a device is shorter than the field, or the table is full. -/
def NameFits (s : Named) : NameCall → Prop
  | .register node => node.name.length < nameSize ∨ maxDevices ≤ s.devfs.numDevices
  | .unregister _ => True

/-! ## The map from names -/

/-- Names are distinct and were not cut, and the entries are the registered devices. -/
structure NameInv (s : Named) : Prop where
  distinct : KeyedTable.Distinct DeviceNode.name s.devfs.devices s.devfs.numDevices
  short : ∀ node ∈ s.live, node.name.length < nameSize
  mem_iff : ∀ node, KeyedTable.Mem s.devfs.devices s.devfs.numDevices node ↔ node ∈ s.live

variable {s : Named} {t : Devfs} {node : DeviceNode} {name : CString}

/-- Finding a device by its name is a search in a table with keys. -/
lemma findDeviceByName_eq (t : Devfs) (name : CString) :
    t.findDeviceByName name = KeyedTable.find DeviceNode.name t.devices t.numDevices name := rfl

/-- The devices that are found are the entries. -/
lemma finds_iff (h : KeyedTable.Distinct DeviceNode.name t.devices t.numDevices) (node : DeviceNode) :
    t.Finds node ↔ KeyedTable.Mem t.devices t.numDevices node := by
  constructor
  · rintro ⟨i, hfind, hnode⟩
    exact ⟨i, (KeyedTable.find_spec hfind).1, hnode⟩
  · rintro ⟨i, hi, rfl⟩
    exact ⟨i, h.find_eq_some_iff.2 ⟨hi, rfl⟩, rfl⟩

/-- What unregistering does. -/
lemma devfsUnregisterDevice_cases (t : Devfs) (name : CString) :
    (t.findDeviceByName name = none ∧ t.devfsUnregisterDevice name = (t, -1)) ∨
      ∃ i, t.findDeviceByName name = some i ∧
        t.devfsUnregisterDevice name =
          (⟨KeyedTable.erase t.devices t.numDevices i {}, t.numDevices - 1⟩, 0) := by
  rw [devfsUnregisterDevice]
  cases hfind : t.findDeviceByName name with
  | none => exact .inl ⟨rfl, rfl⟩
  | some i => exact .inr ⟨i, rfl, rfl⟩

/-- What registering does. -/
lemma registerNode_cases (t : Devfs) (node : DeviceNode) :
    ((maxDevices ≤ t.numDevices ∨ t.findDeviceByName node.name ≠ none) ∧
        t.registerNode node = (t, -1)) ∨
      t.numDevices < maxDevices ∧ t.findDeviceByName node.name = none ∧
        t.registerNode node =
          (⟨Function.update t.devices t.numDevices { node with name := node.name.take (nameSize - 1) },
            t.numDevices + 1⟩, 0) := by
  rw [registerNode, devfsRegisterDevice]
  by_cases hfull : maxDevices ≤ t.numDevices
  · rw [if_pos hfull]
    exact .inl ⟨.inl hfull, rfl⟩
  · rw [if_neg hfull]
    cases hfind : t.findDeviceByName node.name with
    | none => exact .inr ⟨not_le.1 hfull, rfl, rfl⟩
    | some i => exact .inl ⟨.inr (by simp), rfl⟩

/-- **The table is as is wanted** as long as names fit. -/
lemma NameInv.keepsNames (h : NameInv s) : KeepsNames s := by
  have hfinds : ∀ node ∈ s.live, s.devfs.Finds node := fun node hnode =>
    (finds_iff h.distinct node).2 ((h.mem_iff node).2 hnode)
  refine ⟨h.distinct, hfinds, fun node hnode other hname => ?_, fun name t hres => ?_⟩
  · obtain ⟨i, hfind, -⟩ := hfinds node hnode
    rw [← hname] at hfind
    rcases registerNode_cases s.devfs other with ⟨-, hres⟩ | ⟨-, hnone, -⟩
    · exact hres
    · rw [hnone] at hfind
      exact absurd hfind (by simp)
  · rcases devfsUnregisterDevice_cases s.devfs name with ⟨-, hres'⟩ | ⟨i, hfind, hres'⟩
    · rw [hres'] at hres
      exact absurd (Prod.mk.inj hres).2 (by decide)
    · rw [hres'] at hres
      obtain ⟨rfl, -⟩ := Prod.mk.inj hres
      obtain ⟨hi, hname⟩ := KeyedTable.find_spec hfind
      have hdistinct := h.distinct.erase i {}
      constructor
      · rw [findDeviceByName_eq, KeyedTable.find_eq_none_iff]
        intro j hj heq
        have hmem := (h.distinct.mem_erase_iff hi {}).1 ⟨j, hj, rfl⟩
        exact hmem.2 (heq.trans hname.symm)
      · intro node hne
        rw [finds_iff h.distinct, finds_iff hdistinct]
        refine (h.distinct.mem_erase_iff hi {}).trans ?_
        rw [hname]
        exact and_iff_left hne

/-- A call with a name that fits. -/
lemma NameInv.nameStep (h : NameInv s) (c : NameCall) (hfits : NameFits s c) :
    ∃ s', Devfs.nameStep s c = some s' ∧ NameInv s' := by
  cases c with
  | register node =>
    rw [Devfs.nameStep]
    rcases registerNode_cases s.devfs node with ⟨-, hres⟩ | ⟨hroom, hnone, hres⟩
    · rw [hres]
      exact ⟨_, rfl, h⟩
    · rw [hres]
      have hshort : node.name.length < nameSize := hfits.resolve_right (by omega)
      have htake : node.name.take (nameSize - 1) = node.name := by
        rw [List.take_of_length_le]
        omega
      rw [htake]
      refine ⟨_, rfl, h.distinct.concat (KeyedTable.find_eq_none_iff.1 hnone), fun a ha => ?_, fun a => ?_⟩
      · rcases List.mem_cons.1 ha with rfl | ha
        · exact hshort
        · exact h.short a ha
      · refine KeyedTable.mem_concat.trans ?_
        rw [h.mem_iff, if_pos rfl, List.mem_cons, or_comm]
  | unregister name =>
    rw [Devfs.nameStep]
    rcases devfsUnregisterDevice_cases s.devfs name with ⟨-, hres⟩ | ⟨i, hfind, hres⟩
    · rw [hres]
      exact ⟨_, rfl, h⟩
    · rw [hres]
      obtain ⟨hi, hname⟩ := KeyedTable.find_spec hfind
      refine ⟨_, rfl, h.distinct.erase i {}, fun a ha => ?_, fun a => ?_⟩
      · rw [if_pos rfl, List.mem_filter] at ha
        exact h.short a ha.1
      · refine (h.distinct.mem_erase_iff hi {}).trans ?_
        rw [h.mem_iff, hname, if_pos rfl, List.mem_filter, decide_eq_true_iff]

/-- A device whose name does not fit is registered, and not found. -/
lemma NameInv.not_keepsNames (h : NameInv s) (c : NameCall) (hfits : ¬ NameFits s c) :
    ∃ s', Devfs.nameStep s c = some s' ∧ ¬ KeepsNames s' := by
  cases c with
  | unregister name => exact absurd trivial hfits
  | register node =>
    rw [NameFits, not_or, not_lt, not_le] at hfits
    obtain ⟨hlong, hroom⟩ := hfits
    have hold : ∀ i < s.devfs.numDevices, (s.devfs.devices i).name ≠ node.name := by
      intro i hi heq
      have hshort := h.short _ ((h.mem_iff _).1 ⟨i, hi, rfl⟩)
      rw [heq] at hshort
      omega
    rw [Devfs.nameStep]
    rcases registerNode_cases s.devfs node with ⟨hrefused, -⟩ | ⟨-, -, hres⟩
    · exact absurd (hrefused.resolve_left (by omega)) (not_not.2 (KeyedTable.find_eq_none_iff.2 hold))
    · rw [hres]
      refine ⟨_, rfl, fun hkeeps => ?_⟩
      obtain ⟨i, hfind, -⟩ := hkeeps.finds node (by rw [if_pos rfl]; exact List.mem_cons_self)
      obtain ⟨hi, hname⟩ := KeyedTable.find_spec hfind
      dsimp only at hname
      rcases Nat.lt_succ_iff_lt_or_eq.1 hi with hi | rfl
      · rw [Function.update_of_ne hi.ne] at hname
        exact hold i hi hname
      · rw [Function.update_self] at hname
        have hlength := congrArg List.length hname
        rw [List.length_take] at hlength
        have hsize : nameSize = 32 := rfl
        omega

/-- At the start no two devices have one name. -/
lemma nameInv_namedStart : NameInv namedStart where
  distinct i hi := absurd hi (Nat.not_lt_zero i)
  short _ hnode := absurd hnode List.not_mem_nil
  mem_iff _ := iff_of_false (fun ⟨i, hi, _⟩ => Nat.not_lt_zero i hi) List.not_mem_nil

/-- **The runs in which the table is as is wanted** are those in which the names of devices are shorter than
32 bytes, unless the table is full.

**Proof sketch.** By induction on the calls. The entries are the registered devices as long as names fit;
a device with another name is not found. -/
theorem keepsNames_iff (calls : List NameCall) :
    (∀ before s, before <+: calls → Run.exec nameStep namedStart before = some s → KeepsNames s) ↔
      Run.Follows nameStep NameFits namedStart calls := by
  refine Run.forall_prefix_iff (I := NameInv) (fun s h => h.keepsNames) (fun s c h => ?_) nameInv_namedStart
  by_cases hfits : NameFits s c
  · obtain ⟨s', hstep, hinv⟩ := h.nameStep c hfits
    exact ⟨s', hstep, fun _ => hinv, fun hnot => absurd hfits hnot⟩
  · obtain ⟨s', hstep, hnot⟩ := h.not_keepsNames c hfits
    exact ⟨s', hstep, fun hfits' => absurd hfits' hfits, fun _ => hnot⟩

/-- A device with a name of 32 bytes. -/
def longNode : DeviceNode := { name := List.replicate 32 97 }

/-- It is registered twice, and not found under its name. -/
theorem not_keepsNames_longNode :
    ∃ s, Run.exec nameStep namedStart [.register longNode, .register longNode] = some s ∧
      s.live = [longNode, longNode] ∧ s.devfs.findDeviceByName longNode.name = none ∧ ¬ KeepsNames s := by
  have hnone : ((devfsInit.registerNode longNode).1.registerNode longNode).1.findDeviceByName
      longNode.name = none := by
    decide
  refine ⟨_, rfl, by decide, hnone, fun hkeeps => ?_⟩
  obtain ⟨i, hfind, -⟩ := hkeeps.finds longNode (by decide)
  exact absurd (hnone.symm.trans hfind) (by simp)

end Devfs

end Jarvis
