import DeviceModel.DmLines

/-!
# The program: its devices on their own

What the program does to a device is a run of that device. In each step one of the two runs at
most, and all that the other sees is what has become of memory and of its device instance. The
polls, the callout and the service of the disk come to a device in the order of the program, none
of them lost and none repeated; what else it does is the accesses that requests make.
-/

set_option autoImplicit false

namespace DeviceModel.DmLoop

open Fallible PciEmul EmulPci DmRequest

variable {T : PciTree} {φ : Type}

/-- What happens to the e1000, where the rest of the program also works on memory and on the
device instance. -/
inductive E1000Event where
  | event (e : E82545.Event)
  | other (mem : Memory) (pi : PciDevinst)

def e1000Step (F : E82545.Fifo φ) (s : E82545.E1000 φ) : E1000Event → Except Fault (E82545.E1000 φ)
  | .event e => E82545.step F s e
  | .other mem pi => .ok { s with mem := mem, sc.intr.escPi := pi }

def Event.forE1000 : Event → Option E82545.Event
  | .e1000Poll packets => some (.poll packets)
  | .callout => some .callout
  | .fifoWork packets => some (.fifoWork packets)
  | _ => none

/-- What the e1000 does other than to answer accesses. -/
def E1000Event.own : E1000Event → Option E82545.Event
  | .event (.write ..) | .event (.read ..) | .other .. => none
  | .event e => some e

def Event.forAhci : Event → Option PciAhci.Event
  | .blockifThr => some .thr
  | _ => none

def ahciOwn : PciAhci.Event → Option PciAhci.Event
  | .write .. | .other .. => none
  | e => some e

def E1000Event.IsOther : E1000Event → Prop
  | .other .. => True
  | _ => False

def AhciIsOther : PciAhci.Event → Prop
  | .other .. => True
  | _ => False

structure Simulates (F : E82545.Fifo φ) (fuel : Nat) (m m' : Machine T (Behind φ))
    (es : List E1000Event) (as : List PciAhci.Event) : Prop where
  e1000 : ∃ pi pi', m.pci.fiDevi e82545Bdf = some pi ∧ m'.pci.fiDevi e82545Bdf = some pi' ∧
    run (e1000Step F) (e1000At m pi) es = .ok (e1000At m' pi')
  ahci : ∃ pi pi', m.pci.fiDevi ahciBdf = some pi ∧ m'.pci.fiDevi ahciBdf = some pi' ∧
    run (PciAhci.Ahci.step fuel) (ahciAt m pi) as = .ok (ahciAt m' pi')

structure Sound (m : Machine T (Behind φ)) : Prop where
  lines : Lines m
  ready : ∃ pi, m.pci.fiDevi ahciBdf = some pi ∧ (ahciAt m pi).Ready

variable {pi₀ : PciDevinst} {F : E82545.Fifo φ} {fuel : Nat} {m m' m'' : Machine T (Behind φ)}
  {es es' : List E1000Event}
  {as as' : List PciAhci.Event}

theorem Simulates.trans (h : Simulates F fuel m m' es as) (h' : Simulates F fuel m' m'' es' as') :
    Simulates F fuel m m'' (es ++ es') (as ++ as') := by
  constructor
  · obtain ⟨pi, pi', hPi, hPi', hRun⟩ := h.e1000
    obtain ⟨pi₁, pi'', hPi₁, hPi'', hRun'⟩ := h'.e1000
    obtain rfl := Option.some.inj (hPi'.symm.trans hPi₁)
    exact ⟨pi, pi'', hPi, hPi'', run_append_eq_ok_iff.mpr ⟨_, hRun, hRun'⟩⟩
  · obtain ⟨pi, pi', hPi, hPi', hRun⟩ := h.ahci
    obtain ⟨pi₁, pi'', hPi₁, hPi'', hRun'⟩ := h'.ahci
    obtain rfl := Option.some.inj (hPi'.symm.trans hPi₁)
    exact ⟨pi, pi'', hPi, hPi'', run_append_eq_ok_iff.mpr ⟨_, hRun, hRun'⟩⟩

theorem Simulates.sound (h : Simulates F fuel m m' es as) (hSound : Sound m) (hLines : Lines m') :
    Sound m' := by
  obtain ⟨pi, pi', hPi, hPi', hRun⟩ := h.ahci
  obtain ⟨pi₁, hPi₁, hReady⟩ := hSound.ready
  obtain rfl := Option.some.inj (hPi.symm.trans hPi₁)
  have hKept := run_keeps (fun s e hs => PciAhci.Ahci.step_ready fuel hs e) hReady as
  exact ⟨hLines, pi', hPi', hKept.of_ok hRun⟩

section Steps

theorem onE1000_simulates (h : Lines m) {pi : PciDevinst} (hPi : m.pci.fiDevi e82545Bdf = some pi)
    {s : E82545.E1000 φ} (hs : E82545Line pi₀ s.sc.intr)
    (hRun : run (e1000Step F) (e1000At m pi) es = .ok s) :
    ∃ qi, Simulates F fuel m (putE1000 m s) es [.other s.mem qi] := by
  obtain ⟨qi, hQi, -⟩ := h.ahci
  have hNe : ahciBdf ≠ s.sc.intr.escPi.bdf := by
    rw [hs.inst.bdf_eq]
    exact e82545Bdf_ne
  refine ⟨qi, ⟨pi, s.sc.intr.escPi, hPi, setDevi_self m.pci hs.inst.bdf_eq, hRun⟩,
    ⟨qi, qi, hQi, setDevi_other m.pci hNe hQi, rfl⟩⟩

theorem onAhci_simulates (h : Lines m) {pi : PciDevinst} (hPi : m.pci.fiDevi ahciBdf = some pi)
    {s : PciAhci.Ahci} (hs : AhciLine pi₀ s.sc)
    (hRun : run (PciAhci.Ahci.step fuel) (ahciAt m pi) as = .ok s) :
    ∃ qi, Simulates F fuel m (putAhci m s) [.other s.mem qi] as := by
  obtain ⟨qi, hQi, -⟩ := h.e82545
  have hNe : e82545Bdf ≠ s.sc.ascPi.bdf := by
    rw [hs.inst.bdf_eq]
    exact e82545Bdf_ne.symm
  refine ⟨qi, ⟨qi, qi, hQi, setDevi_other m.pci hNe hQi, rfl⟩,
    ⟨pi, s.sc.ascPi, hPi, setDevi_self m.pci hs.inst.bdf_eq, hRun⟩⟩

theorem config_simulates (h : Lines m) {pci : Pci T} {isRead : Bool} {bdf : Bdf} {coff bytes : Nat}
    {eax val : BitVec 32} (hCfg : m.pci.pciCfgrw isRead bdf coff bytes eax = .ok (val, pci)) :
    ∃ pi qi, Simulates F fuel m { m with pci } [.other m.dev.mem pi] [.other m.dev.mem qi] := by
  obtain ⟨pi, hPi, -⟩ := h.e82545
  obtain ⟨qi, hQi, -⟩ := h.ahci
  obtain ⟨pi', hPi'⟩ := pciCfgrw_present hCfg hPi
  obtain ⟨qi', hQi'⟩ := pciCfgrw_present hCfg hQi
  exact ⟨pi', qi', ⟨pi, pi', hPi, hPi', rfl⟩, ⟨qi, qi', hQi, hQi', rfl⟩⟩

structure Accessed (F : E82545.Fifo φ) (fuel : Nat) (bdf : Bdf) (m m' : Machine T (Behind φ)) : Prop where
  sound : Sound m'
  simulates : ∃ es as, Simulates F fuel m m' es as ∧ es.filterMap E1000Event.own = [] ∧
    as.filterMap ahciOwn = [] ∧ (bdf ≠ e82545Bdf → ∀ e ∈ es, e.IsOther) ∧
    (bdf = e82545Bdf → ∀ a ∈ as, AhciIsOther a)

variable {bdf : Bdf}

theorem Accessed.e1000 (h : Accessed F fuel bdf m m') (hBdf : bdf = e82545Bdf) {pi : PciDevinst}
    (hPi : m'.pci.fiDevi e82545Bdf = some pi) {s : E82545.E1000 φ} (hs : E82545Line pi₀ s.sc.intr)
    {e : E82545.Event} (hOwn : E1000Event.own (.event e) = none)
    (hStep : E82545.step F (e1000At m' pi) e = .ok s) : Accessed F fuel bdf m (putE1000 m' s) := by
  obtain ⟨es, as, hSim, hEs, hAs, -, hOther⟩ := h.simulates
  have hRun : run (e1000Step F) (e1000At m' pi) [.event e] = .ok s :=
    run_cons_eq_ok_iff.mpr ⟨s, hStep, rfl⟩
  obtain ⟨qi, hSim'⟩ := @onE1000_simulates T φ _ F fuel m' _ h.sound.lines pi hPi s hs hRun
  refine ⟨hSim'.sound h.sound (putE1000_lines h.sound.lines hs), es ++ [.event e],
    as ++ [.other s.mem qi], hSim.trans hSim', ?_, ?_, fun hNe => absurd hBdf hNe, fun _ => ?_⟩
  · rw [List.filterMap_append, hEs, List.filterMap_cons_none hOwn]
    rfl
  · rw [List.filterMap_append, hAs]
    rfl
  · intro a ha
    obtain ha | ha := List.mem_append.mp ha
    · exact hOther hBdf a ha
    · rw [List.mem_singleton.mp ha]
      trivial

/-- An access more to the controller, which may be a read that leaves it as it was. -/
theorem Accessed.ahci (h : Accessed F fuel bdf m m') (hBdf : bdf ≠ e82545Bdf) {pi : PciDevinst}
    (hPi : m'.pci.fiDevi ahciBdf = some pi) {s : PciAhci.Ahci} (hs : AhciLine pi₀ s.sc)
    {a : PciAhci.Event} (hOwn : ahciOwn a = none)
    (hStep : PciAhci.Ahci.step fuel (ahciAt m' pi) a = .ok s) :
    Accessed F fuel bdf m (putAhci m' s) := by
  obtain ⟨es, as, hSim, hEs, hAs, hOther, -⟩ := h.simulates
  have hRun : run (PciAhci.Ahci.step fuel) (ahciAt m' pi) [a] = .ok s :=
    run_cons_eq_ok_iff.mpr ⟨s, hStep, rfl⟩
  obtain ⟨qi, hSim'⟩ := @onAhci_simulates T φ _ F fuel m' _ h.sound.lines pi hPi s hs hRun
  refine ⟨hSim'.sound h.sound (putAhci_lines h.sound.lines hs), es ++ [.other s.mem qi], as ++ [a],
    hSim.trans hSim', ?_, ?_, fun _ => ?_, fun hEq => absurd hEq hBdf⟩
  · rw [List.filterMap_append, hEs]
    rfl
  · rw [List.filterMap_append, hAs, List.filterMap_cons_none hOwn]
    rfl
  · intro e he
    obtain he | he := List.mem_append.mp he
    · exact hOther hBdf e he
    · rw [List.mem_singleton.mp he]
      trivial

theorem peBarwrite_accessed (h : Accessed F fuel bdf m m') (bidx : Nat) (offset : BitVec 64)
    (size : Nat) (val : BitVec 64) : Yields (fun _ => True) (Accessed F fuel bdf m)
      ((barOps T φ fuel).peBarwrite bdf m' bidx offset size val) := by
  obtain ⟨pi, hPi, hE82545⟩ := h.sound.lines.e82545
  obtain ⟨qi, hQi, hAhci⟩ := h.sound.lines.ahci
  unfold barOps
  dsimp only
  split
  · next hBdf =>
    unfold onE1000
    rw [hPi]
    apply Yields.map
    apply Yields.map
    apply (e82545Write_e82545Line hE82545 bidx offset size val).imp
    intro sc hWrite hsc
    have hStep : E82545.step F (e1000At m' pi) (.write bidx offset size val) =
        .ok { e1000At m' pi with sc } := map_eq_ok_iff.mpr ⟨sc, hWrite, rfl⟩
    exact h.e1000 hBdf hPi (s := { e1000At m' pi with sc }) hsc rfl hStep
  · next hBdf =>
    apply Yields.ite
    · unfold onAhci
      rw [hQi]
      apply Yields.map
      apply (pciAhciWrite_ahciLine hAhci fuel bidx offset.toNat val).imp
      intro s hStep hs
      exact h.ahci hBdf hQi hs (a := .write bidx offset.toNat val) rfl hStep
    · trivial

/-- A read between two steps finds the mutex free, and leaves it so. -/
theorem pciAhciRead_same {s : PciAhci.Ahci} (h : s.Ready) {baridx regoff size : Nat}
    {r : BitVec 64 × PciAhci.Ahci} (hRead : s.pciAhciRead baridx regoff size = .ok r) : r.2 = s := by
  obtain ⟨-, hAccess, ⟨⟩⟩ := bind_eq_ok_iff.mp hRead
  have hMtx := PciAhci.Port.unlock_lock h.mtx
  obtain ⟨sc, mem, port, blockifSc⟩ := s
  simp only [PciAhci.Ahci.lock, PciAhci.Ahci.unlock, hMtx]

theorem peBarread_accessed (h : Accessed F fuel bdf m m') (bidx : Nat) (offset : BitVec 64)
    (size : Nat) : Yields (fun _ => True) (fun r => Accessed F fuel bdf m r.2)
      ((barOps T φ fuel).peBarread bdf m' bidx offset size) := by
  obtain ⟨pi, hPi, hE82545⟩ := h.sound.lines.e82545
  obtain ⟨qi, hQi, hAhci⟩ := h.sound.lines.ahci
  obtain ⟨qi', hQi', hReady⟩ := h.sound.ready
  obtain rfl := Option.some.inj (hQi.symm.trans hQi')
  unfold barOps
  dsimp only
  rw [hPi, hQi]
  split
  · next hBdf =>
    apply Yields.map
    apply (e82545Read_e82545Line hE82545 bidx offset size).imp
    intro r hRead hr
    have hStep : E82545.step F (e1000At m' pi) (.read bidx offset size) =
        .ok { e1000At m' pi with sc := r.2 } := map_eq_ok_iff.mpr ⟨r, hRead, rfl⟩
    exact h.e1000 hBdf hPi (s := { e1000At m' pi with sc := r.2 }) hr rfl hStep
  · next hBdf =>
    apply Yields.ite
    · apply Yields.map
      apply (yields_true _).imp
      intro r hRead _
      rw [pciAhciRead_same hReady hRead]
      exact h.ahci hBdf hQi hAhci (a := .other m'.dev.mem qi) rfl rfl
    · trivial

end Steps

/-- One step of the program: at most one device runs, and what it does on its own is given. -/
structure OneDevice (es : List E1000Event) (as : List PciAhci.Event) (own : Option E82545.Event)
    (own' : Option PciAhci.Event) : Prop where
  one : (∀ e ∈ es, e.IsOther) ∨ ∀ a ∈ as, AhciIsOther a
  e1000 : es.filterMap E1000Event.own = own.toList
  ahci : as.filterMap ahciOwn = own'.toList

variable {s s' : Devices T (Behind φ)}

theorem Sound.simulates_refl (h : Sound m) : Simulates F fuel m m [] [] := by
  obtain ⟨pi, hPi, -⟩ := h.lines.e82545
  obtain ⟨qi, hQi, -⟩ := h.lines.ahci
  exact ⟨⟨pi, pi, hPi, hPi, rfl⟩, ⟨qi, qi, hQi, hQi, rfl⟩⟩

theorem request_simulates (h : Sound s.machine) {r : Request}
    (hStep : step fuel F s (.request r) = .ok s') : Sound s'.machine ∧
      ∃ es as, Simulates F fuel s.machine s'.machine es as ∧ OneDevice es as none none := by
  have hNone : ∀ {m : Machine T (Behind φ)}, Sound m →
      ∃ es as, Simulates F fuel m m es as ∧ OneDevice es as none none := by
    intro m hm
    refine ⟨[], [], hm.simulates_refl, .inl ?_, rfl, rfl⟩
    exact fun e he => absurd he List.not_mem_nil
  obtain hSame | hReaches := step_request_reaches hStep
  · rw [hSame]
    exact ⟨h, hNone h⟩
  have hStart : Sound (s.machine.access r.req.addr).2 :=
    ⟨⟨h.lines.settled, h.lines.e82545, h.lines.ahci⟩, h.ready⟩
  have hUp : ∀ {m : Machine T (Behind φ)} {es as},
      Simulates F fuel (s.machine.access r.req.addr).2 m es as →
      Simulates F fuel s.machine m es as := fun hSim => ⟨hSim.e1000, hSim.ahci⟩
  generalize s'.machine = m at hReaches
  cases hReaches with
  | config hCfg =>
    obtain ⟨pi, qi, hSim⟩ := @config_simulates T φ F fuel _ hStart.lines _ _ _ _ _ _ _ hCfg
    refine ⟨hSim.sound hStart (config_lines hStart.lines hCfg), _, _, hUp hSim, .inl ?_, rfl, rfl⟩
    intro e he
    rw [List.mem_singleton.mp he]
    trivial
  | @bar bdf _ _ _ _ _ _ _ hBar =>
    have hFirst : Accessed F fuel bdf (s.machine.access r.req.addr).2
        (s.machine.access r.req.addr).2 := by
      refine ⟨hStart, [], [], hStart.simulates_refl, rfl, rfl, fun _ => ?_, fun _ => ?_⟩
      · exact fun e he => absurd he List.not_mem_nil
      · exact fun a ha => absurd ha List.not_mem_nil
    have hLast := (barAccess_keeps (P := Accessed F fuel bdf (s.machine.access r.req.addr).2)
      (fun bidx offset size hm => peBarread_accessed hm bidx offset size)
      (fun bidx offset size val hm => peBarwrite_accessed hm bidx offset size val)
      hFirst _ _ _ _ _).of_ok hBar
    obtain ⟨es, as, hSim, hEs, hAs, hOther, hOther'⟩ := hLast.simulates
    refine ⟨hLast.sound, es, as, hUp hSim, ?_, hEs, hAs⟩
    by_cases hBdf : bdf = e82545Bdf
    · exact .inr (hOther' hBdf)
    · exact .inl (hOther hBdf)

theorem step_e82545Line {d : E82545.E1000 φ} (h : E82545Line pi₀ d.sc.intr) (e : E82545.Event) :
    Yields (fun _ => True) (fun d' => E82545Line pi₀ d'.sc.intr) (E82545.step F d e) := by
  cases e with
  | write baridx offset size value => exact Yields.map (e82545Write_e82545Line h baridx offset size value)
  | read baridx offset size => exact Yields.map (e82545Read_e82545Line h baridx offset size)
  | poll packets => exact e1000Poll_e82545Line h packets
  | store mem => exact h
  | callout => exact Yields.map (runCallout_e82545Line h)
  | fifoWork packets => exact e82545TapCallback_e82545Line h packets

theorem e1000_own_simulates (h : Sound m) {e : E82545.Event} (hOwn : E1000Event.own (.event e) = some e)
    (hStep : onE1000 m (fun d => E82545.step F d e) = .ok m') : Sound m' ∧
      ∃ es as, Simulates F fuel m m' es as ∧ OneDevice es as (some e) none := by
  obtain ⟨pi, hPi, hLine⟩ := h.lines.e82545
  unfold onE1000 at hStep
  rw [hPi] at hStep
  obtain ⟨d, hd, rfl⟩ := map_eq_ok_iff.mp hStep
  have hLine' := (step_e82545Line hLine e).of_ok hd
  have hRun : run (e1000Step F) (e1000At m pi) [.event e] = .ok d :=
    run_cons_eq_ok_iff.mpr ⟨d, hd, rfl⟩
  obtain ⟨qi, hSim⟩ := @onE1000_simulates T φ _ F fuel m _ h.lines pi hPi d hLine' hRun
  refine ⟨hSim.sound h (putE1000_lines h.lines hLine'), _, _, hSim, .inr ?_, ?_, rfl⟩
  · intro a ha
    rw [List.mem_singleton.mp ha]
    trivial
  · rw [List.filterMap_cons_some hOwn]
    rfl

theorem blockifThr_simulates (h : Sound m) (hStep : onAhci m (·.blockifThr fuel) = .ok m') : Sound m' ∧
    ∃ es as, Simulates F fuel m m' es as ∧ OneDevice es as none (some .thr) := by
  obtain ⟨pi, hPi, hLine⟩ := h.lines.ahci
  unfold onAhci at hStep
  rw [hPi] at hStep
  obtain ⟨d, hd, rfl⟩ := map_eq_ok_iff.mp hStep
  have hLine' := (blockifThr_ahciLine hLine fuel).of_ok hd
  have hRun : run (PciAhci.Ahci.step fuel) (ahciAt m pi) [.thr] = .ok d :=
    run_cons_eq_ok_iff.mpr ⟨d, hd, rfl⟩
  obtain ⟨qi, hSim⟩ := @onAhci_simulates T φ _ F fuel m _ h.lines pi hPi d hLine' hRun
  refine ⟨hSim.sound h (putAhci_lines h.lines hLine'), _, _, hSim, .inl ?_, rfl, rfl⟩
  intro e he
  rw [List.mem_singleton.mp he]
  trivial

theorem step_simulates (h : Sound s.machine) {e : Event} (hStep : step fuel F s e = .ok s') :
    Sound s'.machine ∧ ∃ es as, Simulates F fuel s.machine s'.machine es as ∧
      OneDevice es as e.forE1000 e.forAhci := by
  cases e with
  | request r => exact request_simulates h hStep
  | e1000Poll packets =>
    obtain ⟨m, hOn, rfl⟩ := map_eq_ok_iff.mp hStep
    exact e1000_own_simulates h rfl hOn
  | blockifThr =>
    obtain ⟨m, hOn, rfl⟩ := map_eq_ok_iff.mp hStep
    exact blockifThr_simulates h hOn
  | callout =>
    obtain ⟨m, hOn, rfl⟩ := map_eq_ok_iff.mp hStep
    exact e1000_own_simulates h rfl hOn
  | fifoWork packets =>
    obtain ⟨m, hOn, rfl⟩ := map_eq_ok_iff.mp hStep
    exact e1000_own_simulates h rfl hOn
  | store mem =>
    obtain ⟨⟩ := hStep
    obtain ⟨pi, hPi, hLine⟩ := h.lines.e82545
    obtain ⟨qi, hQi, hReady⟩ := h.ready
    have hSim : Simulates F fuel s.machine { s.machine with dev.mem := mem } [.other mem pi]
        [.other mem qi] := ⟨⟨pi, pi, hPi, hPi, rfl⟩, ⟨qi, qi, hQi, hQi, rfl⟩⟩
    refine ⟨hSim.sound h ⟨h.lines.settled, h.lines.e82545, h.lines.ahci⟩, _, _, hSim, .inl ?_, rfl, rfl⟩
    intro e he
    rw [List.mem_singleton.mp he]
    trivial

structure Parted (F : E82545.Fifo φ) (fuel : Nat) (m m' : Machine T (Behind φ)) (events : List Event)
    (parts : List (List E1000Event × List PciAhci.Event)) : Prop where
  steps : List.Forall₂ (fun e part => OneDevice part.1 part.2 e.forE1000 e.forAhci) events parts
  simulates : Simulates F fuel m m' (parts.flatMap Prod.fst) (parts.flatMap Prod.snd)

theorem run_parted {events : List Event} : ∀ {s : Devices T (Behind φ)}, Sound s.machine →
    run (step fuel F) s events = .ok s' →
    Sound s'.machine ∧ ∃ parts, Parted F fuel s.machine s'.machine events parts := by
  induction events with
  | nil =>
    intro s hSound hRun
    obtain ⟨⟩ := hRun
    exact ⟨hSound, [], .nil, hSound.simulates_refl⟩
  | cons e events ih =>
    intro s hSound hRun
    obtain ⟨t, hStep, hRest⟩ := run_cons_eq_ok_iff.mp hRun
    obtain ⟨hNext, es, as, hSim, hOne⟩ := step_simulates hSound hStep
    obtain ⟨hLast, parts, hParts⟩ := ih hNext hRest
    refine ⟨hLast, (es, as) :: parts, .cons hOne hParts.steps, ?_⟩
    rw [List.flatMap_cons, List.flatMap_cons]
    exact hSim.trans hParts.simulates

section Init

variable {disks : List (Option (List (BitVec 8)))} {mem : Memory} {stack : Nat → BitVec 8} {fifo : φ}
  {s₀ s : Devices T (Behind φ)} {events : List Event}

variable (T) in
def Booted (disks : List (Option (List (BitVec 8)))) (mem : Memory) (stack : Nat → BitVec 8)
    (sc : E82545.Softc) (ahci : PciAhci.Ahci) : Prop :=
  ∃ pci pi pi', bhyvePciInit T = .ok pci ∧ pci.fiDevi e82545Bdf = some pi ∧
    pci.fiDevi ahciBdf = some pi' ∧ E82545.Softc.e82545Init pi = .ok sc ∧
    PciAhci.pciAhciInit pi' disks mem stack = .ok ahci

theorem dmInit_booted (hInit : dmInit T disks mem stack fifo = .ok s₀) : Sound s₀.machine ∧
    ∃ sc ahci pi pi', Booted T disks mem stack sc ahci ∧ s₀.machine.pci.fiDevi e82545Bdf = some pi ∧
      s₀.machine.pci.fiDevi ahciBdf = some pi' ∧ e1000At s₀.machine pi = ⟨sc, ahci.mem, fifo⟩ ∧
      ahciAt s₀.machine pi' = ahci := by
  have hLines := dmInit_lines hInit
  obtain ⟨pci, hPci, hInit⟩ := bind_eq_ok_iff.mp hInit
  have hQuiet := quiet_of_initPci hPci
  dsimp only at hInit
  split at hInit
  · next pi pi' hPi hPi' =>
    obtain ⟨sc, hSc, hInit⟩ := bind_eq_ok_iff.mp hInit
    obtain ⟨ahci, hAhci, ⟨⟩⟩ := bind_eq_ok_iff.mp hInit
    have hSettled := hQuiet.linesSettled
    have hLine := (e82545Init_e82545Line (hSettled _ _ hPi).1 (hSettled _ _ hPi).2).of_ok hSc
    have hLine' := (pciAhciInit_ahciLine (hSettled _ _ hPi').1 (hSettled _ _ hPi').2 disks mem
      stack).of_ok hAhci
    have hReady := (PciAhci.Ahci.pciAhciInit_ready pi' disks mem stack).of_ok hAhci
    have hFirst : ((pci.setDevi sc.intr.escPi).setDevi ahci.sc.ascPi).fiDevi e82545Bdf =
        some sc.intr.escPi := by
      apply setDevi_other _ _ (setDevi_self pci hLine.inst.bdf_eq)
      rw [hLine'.inst.bdf_eq]
      exact e82545Bdf_ne.symm
    have hSecond := setDevi_self (pci.setDevi sc.intr.escPi) hLine'.inst.bdf_eq
    refine ⟨⟨hLines, _, hSecond, hReady⟩, sc, ahci, _, _, ?_, hFirst, hSecond, rfl, rfl⟩
    exact ⟨pci, pi, pi', hPci, hPi, hPi', hSc, hAhci⟩
  · cases hInit

/-- What the program makes of a device, the device makes of itself: each has run from its own start
through the polls, callouts and services of the disk that the program has for it, in their order,
with accesses of requests and changes of memory between. In each step one of the two at most runs. -/
theorem program_simulates (hInit : dmInit T disks mem stack fifo = .ok s₀)
    (hRun : run (step fuel F) s₀ events = .ok s) :
    ∃ sc ahci pi pi' parts, Booted T disks mem stack sc ahci ∧
      List.Forall₂ (fun e part => OneDevice part.1 part.2 e.forE1000 e.forAhci) events parts ∧
      s.machine.pci.fiDevi e82545Bdf = some pi ∧ s.machine.pci.fiDevi ahciBdf = some pi' ∧
      run (e1000Step F) ⟨sc, ahci.mem, fifo⟩ (parts.flatMap Prod.fst) = .ok (e1000At s.machine pi) ∧
      run (PciAhci.Ahci.step fuel) ahci (parts.flatMap Prod.snd) = .ok (ahciAt s.machine pi') := by
  obtain ⟨hSound, sc, ahci, pi₀, pi₀', hBooted, hPi₀, hPi₀', hE1000, hAhci⟩ := dmInit_booted hInit
  obtain ⟨-, parts, hParts⟩ := run_parted hSound hRun
  obtain ⟨pi₁, pi, hPi₁, hPi, hRunE1000⟩ := hParts.simulates.e1000
  obtain ⟨pi₁', pi', hPi₁', hPi', hRunAhci⟩ := hParts.simulates.ahci
  obtain rfl := Option.some.inj (hPi₀.symm.trans hPi₁)
  obtain rfl := Option.some.inj (hPi₀'.symm.trans hPi₁')
  rw [hE1000] at hRunE1000
  rw [hAhci] at hRunAhci
  exact ⟨sc, ahci, pi, pi', parts, hBooted, hParts.steps, hPi, hPi', hRunE1000, hRunAhci⟩

theorem program_simulates_enable : ∃ s : Devices unbalancedTree (Behind Unit),
    enabled enableInterrupts = .ok s ∧ ∃ sc ahci pi pi' parts,
      Booted unbalancedTree [some []] (fun _ => 0) (fun _ => 0) sc ahci ∧
      List.Forall₂ (fun e part => OneDevice part.1 part.2 e.forE1000 e.forAhci) enableInterrupts parts ∧
      s.machine.pci.fiDevi e82545Bdf = some pi ∧ s.machine.pci.fiDevi ahciBdf = some pi' ∧
      run (e1000Step E82545.idleFifo) ⟨sc, ahci.mem, ()⟩ (parts.flatMap Prod.fst) =
        .ok (e1000At s.machine pi) ∧
      run (PciAhci.Ahci.step 8) ahci (parts.flatMap Prod.snd) = .ok (ahciAt s.machine pi') := by
  obtain ⟨s₀, s, hInit, hRun⟩ := enabled_runs
  exact ⟨s, bind_eq_ok_iff.mpr ⟨s₀, hInit, hRun⟩, program_simulates hInit hRun⟩

end Init

end DeviceModel.DmLoop
