import Zos4.Provision.Addresses
import Zos4.Provision.Passes
import Zos4.Provision.Reference

/-!
# The addresses that are listed

Both lists go through everything in the store, and each takes what one kind of holder
holds: the public IPs that are `ok`, and the machines that are a `zmachine`
(`listPublicIPs_ok`, `listPrivateIPs_ok`). A public IP that is paused and a machine that
is a `zmachine-light` hold their addresses just as well, and their addresses are left
out unless another holder has them too (`addresses_listed_iff`).
-/

namespace Zos4.Provision

/-! ## Loops that collect -/

/-- A loop whose turns append. -/
theorem foldlM_append {α β ε : Type} {f : List β → α → Except ε (List β)} {g : α → List β}
    {l : List α} (h : ∀ a ∈ l, ∀ acc, f acc a = .ok (acc ++ g a)) (acc : List β) :
    l.foldlM f acc = .ok (acc ++ l.flatMap g) := by
  induction l generalizing acc with
  | nil => simp [pure, Except.pure]
  | cons a l ih =>
      rw [List.foldlM_cons, h a List.mem_cons_self, List.flatMap_cons, ← List.append_assoc]
      exact ih (fun b hb => h b (List.mem_cons_of_mem a hb)) _

section

variable [Addressing] {σ : Type} [Storage σ] {store : σ}

/-! ## Holders -/

/-- The workload's type is one of these, and so is its state. -/
structure Among (types : List WorkloadType) (states : ResultState → Bool) (wl : Workload) :
    Prop where
  type : wl.type ∈ types
  state : states wl.result.state = true

/-- A public IP in one of these states has the address. -/
def PublicHolder (store : σ) (states : ResultState → Bool) (ip : String) : Prop :=
  ∃ key n wl, (Storage.view store).workload key n = some wl ∧
    Among [.publicIPv4, .publicIP] states wl ∧ Addressing.publicIP wl.result = .ok (some ip)

def isLive (s : ResultState) : Bool := !(s == .deleted || s == .error)

/-- A live machine of the twin, of one of these types, has the address on the network. -/
def PrivateHolder (store : σ) (types : List WorkloadType) (twin : TwinID) (network : Name)
    (ip : String) : Prop :=
  ∃ contract n wl, (Storage.view store).workload ⟨twin, contract⟩ n = some wl ∧
    Among types isLive wl ∧ ∃ interfaces, Addressing.interfaces wl = .ok interfaces ∧
      ⟨network, ip⟩ ∈ interfaces

/-- The results of the public IPs in use and the data of the live machines decode. -/
structure Decodes (store : σ) : Prop where
  publicIP : ∀ key n wl, (Storage.view store).workload key n = some wl →
    Among [.publicIPv4, .publicIP] ResultState.isOkay wl →
    ∃ ip, Addressing.publicIP wl.result = .ok ip
  interfaces : ∀ key n wl, (Storage.view store).workload key n = some wl →
    Among [.zmachine, .zmachineLight] isLive wl →
    ∃ interfaces, Addressing.interfaces wl = .ok interfaces

/-! ## What a store lists -/

def contractsOf (store : σ) (twin : TwinID) : List ContractID :=
  (Storage.byTwin store twin).toOption.getD []

def workloadsOf (store : σ) (types : List WorkloadType) (key : DeploymentKey) :
    List WorkloadWithID :=
  match Storage.get store key with
  | .ok dl => dl.byType types
  | .error _ => []

omit [Addressing] in
theorem byTwin_eq (hlist : Listable σ) (twin : TwinID) :
    Storage.byTwin store twin = .ok (contractsOf store twin) := by
  obtain ⟨ids, hids⟩ := (hlist store).2 twin
  rw [contractsOf, hids]
  rfl

omit [Addressing] in
theorem get_eq (hlist : Listable σ) {twin : TwinID} {id : ContractID}
    (h : id ∈ contractsOf store twin) : ∃ dl, Storage.get store ⟨twin, id⟩ = .ok dl := by
  have hheader := (Storage.byTwin_ok (byTwin_eq hlist twin) id).mp h
  cases hget : Storage.get store ⟨twin, id⟩ with
  | ok dl => exact ⟨dl, rfl⟩
  | error err => exact absurd (Storage.get_error hget) hheader

omit [Addressing] in
/-- What is listed of a deployment is what is recorded of it. -/
theorem mem_workloadsOf {types : List WorkloadType} {key : DeploymentKey} {P : Workload → Prop} :
    (∃ wl ∈ workloadsOf store types key, P wl.workload) ↔
      ∃ n wl, (Storage.view store).workload key n = some wl ∧ wl.type ∈ types ∧ P wl := by
  rw [workloadsOf]
  cases hget : Storage.get store key with
  | error err =>
      constructor
      · intro h
        obtain ⟨wl, hwl, -⟩ := h
        cases hwl
      · intro h
        obtain ⟨n, wl, hwl, -⟩ := h
        exact absurd (Storage.get_error hget) (Storage.workload_wf _ _ _ _ hwl).2
  | ok dl =>
      constructor
      · intro h
        obtain ⟨wl, hwl, hP⟩ := h
        obtain ⟨wl, hmem, htype, rfl⟩ := Deployment.mem_byType.mp hwl
        exact ⟨wl.name, wl, (Storage.recorded_iff hget).mpr ⟨hmem, rfl⟩, htype, hP⟩
      · intro h
        obtain ⟨n, wl, hwl, htype, hP⟩ := h
        obtain ⟨hmem, -⟩ := (Storage.recorded_iff hget).mp hwl
        exact ⟨dl.withID wl, Deployment.mem_byType.mpr ⟨wl, hmem, htype, rfl⟩, hP⟩

omit [Addressing] in
theorem workloadsOf_ok {types : List WorkloadType} {key : DeploymentKey} {dl : Deployment}
    (h : Storage.get store key = .ok dl) : workloadsOf store types key = dl.byType types := by
  rw [workloadsOf, h]

omit [Addressing] in
theorem mem_contractsOf (hlist : Listable σ) {twin : TwinID} {contract : ContractID} {n : Name}
    {wl : Workload} (h : (Storage.view store).workload ⟨twin, contract⟩ n = some wl) :
    contract ∈ contractsOf store twin :=
  (Storage.byTwin_ok (byTwin_eq hlist twin) contract).mpr (Storage.workload_wf _ _ _ _ h).2

omit [Addressing] in
/-- A condition on the workloads that are listed, as one on what is recorded. -/
theorem forall_workloadsOf {types : List WorkloadType} {key : DeploymentKey}
    {P : Workload → Prop} (h : ∀ n wl, (Storage.view store).workload key n = some wl →
      wl.type ∈ types → P wl) : ∀ wl ∈ workloadsOf store types key, P wl.workload := by
  intro wl hwl
  obtain ⟨n, wl', hwl', htype, heq⟩ := (mem_workloadsOf (P := fun w => w = wl.workload)).mp
    ⟨wl, hwl, rfl⟩
  exact heq ▸ h n wl' hwl' htype

/-! ## `ListPublicIPs` -/

/-- What the innermost loop takes. -/
def publicIPsOf (wl : WorkloadWithID) : List String :=
  if wl.workload.result.state ≠ .ok then []
  else
    match Addressing.publicIP wl.workload.result with
    | .ok (some ip) => [ip]
    | _ => []

theorem mem_publicIPsOf {wl : WorkloadWithID} {ip : String} :
    ip ∈ publicIPsOf wl ↔ wl.workload.result.state = .ok ∧
      Addressing.publicIP wl.workload.result = .ok (some ip) := by
  rw [publicIPsOf]
  split
  · next hstate => simp [hstate]
  · next hstate =>
      rw [not_not] at hstate
      split
      · next ip' hip => simp [hstate, hip, eq_comm]
      · next hnone => simp only [List.not_mem_nil, false_iff, not_and]; exact fun _ => hnone ip

theorem addPublicIP_eq {wl : WorkloadWithID} (h : wl.workload.result.state = .ok →
    ∃ ip, Addressing.publicIP wl.workload.result = .ok ip) (ips : List String) :
    addPublicIP ips wl = .ok (ips ++ publicIPsOf wl) := by
  rw [addPublicIP, publicIPsOf]
  split
  · rw [List.append_nil]
  · next hstate =>
      obtain ⟨ip, hip⟩ := h (not_not.mp hstate)
      rw [hip]
      cases ip with
      | none => dsimp only; rw [List.append_nil]
      | some ip => rfl

theorem addDeploymentIPs_eq (hlist : Listable σ) (hdecodes : Decodes store) {twin : TwinID}
    {id : ContractID} (hid : id ∈ contractsOf store twin) (ips : List String) :
    addDeploymentIPs store twin ips id =
      .ok (ips ++ (workloadsOf store [.publicIPv4, .publicIP] ⟨twin, id⟩).flatMap
        publicIPsOf) := by
  obtain ⟨dl, hdl⟩ := get_eq hlist hid
  have hwls : ∀ wl ∈ workloadsOf store [.publicIPv4, .publicIP] ⟨twin, id⟩,
      wl.workload.result.state = .ok →
        ∃ ip, Addressing.publicIP wl.workload.result = .ok ip := by
    refine forall_workloadsOf (P := fun wl => wl.result.state = .ok →
      ∃ ip, Addressing.publicIP wl.result = .ok ip) fun n wl hwl htype hstate => ?_
    exact hdecodes.publicIP _ n wl hwl ⟨htype, by rw [hstate]; rfl⟩
  rw [workloadsOf_ok hdl] at hwls ⊢
  rw [addDeploymentIPs, hdl]
  exact foldlM_append (fun wl hwl acc => addPublicIP_eq (hwls wl hwl) acc) ips

/-- What the two outer loops take of a twin. -/
def twinIPs (store : σ) (twin : TwinID) : List String :=
  (contractsOf store twin).flatMap fun id =>
    (workloadsOf store [.publicIPv4, .publicIP] ⟨twin, id⟩).flatMap publicIPsOf

theorem addTwinIPs_eq (hlist : Listable σ) (hdecodes : Decodes store) (ips : List String)
    (twin : TwinID) : addTwinIPs store ips twin = .ok (ips ++ twinIPs store twin) := by
  rw [addTwinIPs, byTwin_eq hlist]
  exact foldlM_append (fun id hid acc => addDeploymentIPs_eq hlist hdecodes hid acc) ips

/-- `ListPublicIPs` lists the public IPs that are `ok`. -/
theorem listPublicIPs_ok (hlist : Listable σ) (hdecodes : Decodes store) :
    ∃ ips, listPublicIPs store = .ok ips ∧
      ∀ ip, ip ∈ ips ↔ PublicHolder store (· == .ok) ip := by
  obtain ⟨twins, htwins⟩ := (hlist store).1
  have hlisted : listPublicIPs store = .ok (twins.flatMap (twinIPs store)) := by
    rw [listPublicIPs, htwins]
    exact foldlM_append (fun twin _ acc => addTwinIPs_eq hlist hdecodes acc twin) []
  refine ⟨_, hlisted, fun ip => ?_⟩
  simp only [twinIPs, List.mem_flatMap, mem_publicIPsOf]
  constructor
  · intro h
    obtain ⟨twin, -, id, -, hwl⟩ := h
    obtain ⟨n, wl, hwl, htype, hstate, hip⟩ := (mem_workloadsOf (P := fun wl =>
      wl.result.state = .ok ∧ Addressing.publicIP wl.result = .ok (some ip))).mp hwl
    exact ⟨⟨twin, id⟩, n, wl, hwl, ⟨htype, by rw [hstate]; rfl⟩, hip⟩
  · intro h
    obtain ⟨⟨twin, id⟩, n, wl, hwl, hamong, hip⟩ := h
    refine ⟨twin, ?_, id, mem_contractsOf hlist hwl, ?_⟩
    · exact (Storage.twins_ok htwins twin).mpr ⟨id, (Storage.workload_wf _ _ _ _ hwl).2⟩
    · exact (mem_workloadsOf (P := fun wl =>
        wl.result.state = .ok ∧ Addressing.publicIP wl.result = .ok (some ip))).mpr
        ⟨n, wl, hwl, hamong.type, by simpa using hamong.state, hip⟩

/-! ## `ListPrivateIPs` -/

/-- What the loop over the machines takes. -/
def privateIPsOf (network : Name) (vm : WorkloadWithID) : List String :=
  if isLive vm.workload.result.state then
    match Addressing.interfaces vm.workload with
    | .ok interfaces => (interfaces.filter (·.network = network)).map (·.ip)
    | .error _ => []
  else []

theorem mem_privateIPsOf {network : Name} {vm : WorkloadWithID} {ip : String} :
    ip ∈ privateIPsOf network vm ↔ isLive vm.workload.result.state = true ∧
      ∃ interfaces, Addressing.interfaces vm.workload = .ok interfaces ∧
        ⟨network, ip⟩ ∈ interfaces := by
  rw [privateIPsOf]
  split
  · next hlive =>
      cases hinf : Addressing.interfaces vm.workload with
      | error err => simp
      | ok interfaces =>
          simp only [List.mem_map, List.mem_filter, decide_eq_true_eq, hlive, true_and,
            Except.ok.injEq, exists_eq_left']
          constructor
          · intro h
            obtain ⟨inf, ⟨hmem, rfl⟩, rfl⟩ := h
            exact hmem
          · intro h
            exact ⟨⟨network, ip⟩, ⟨h, rfl⟩, rfl⟩
  · next hlive => simp [hlive]

theorem addPrivateIPs_eq {network : Name} {vm : WorkloadWithID}
    (h : isLive vm.workload.result.state = true →
      ∃ interfaces, Addressing.interfaces vm.workload = .ok interfaces) (ips : List String) :
    addPrivateIPs network ips vm = .ok (ips ++ privateIPsOf network vm) := by
  rw [addPrivateIPs, privateIPsOf]
  split
  · next hdead =>
      have hlive : ¬ isLive vm.workload.result.state = true := by
        rcases hdead with hdead | hdead <;> simp [isLive, hdead]
      rw [if_neg hlive, List.append_nil]
  · next hdead =>
      have hlive : isLive vm.workload.result.state = true := by simpa [isLive] using hdead
      obtain ⟨interfaces, hinf⟩ := h hlive
      rw [if_pos hlive, hinf]

/-- The active deployments of a twin, among those listed. -/
def activeOf (store : σ) (twin : TwinID) (id : ContractID) : List Deployment :=
  match Storage.get store ⟨twin, id⟩ with
  | .ok dl => if dl.isActive then [dl] else []
  | .error _ => []

omit [Addressing] in
theorem list_eq (hlist : Listable σ) (twin : TwinID) :
    list store twin = .ok ((contractsOf store twin).flatMap (activeOf store twin)) := by
  rw [list, byTwin_eq hlist]
  refine foldlM_append (fun id hid acc => ?_) []
  obtain ⟨dl, hdl⟩ := get_eq hlist hid
  rw [addDeployment, activeOf, hdl]
  cases hactive : dl.isActive with
  | true => simp [hactive, bind, Except.bind, pure, Except.pure]
  | false => simp [hactive, bind, Except.bind, pure, Except.pure]

omit [Addressing] in
theorem mem_activeOf {twin : TwinID} {id : ContractID} {dl : Deployment} :
    dl ∈ activeOf store twin id ↔
      Storage.get store ⟨twin, id⟩ = .ok dl ∧ dl.isActive = true := by
  rw [activeOf]
  cases Storage.get store ⟨twin, id⟩ with
  | error err => simp
  | ok dl' =>
      dsimp only
      split
      · next hactive =>
          rw [List.mem_singleton, Except.ok.injEq]
          exact ⟨fun heq => ⟨heq.symm, heq ▸ hactive⟩, fun heq => heq.1.symm⟩
      · next hactive =>
          refine iff_of_false List.not_mem_nil fun h => hactive ?_
          rw [Except.ok.inj h.1]
          exact h.2

/-- `ListPrivateIPs` lists the live machines that are a `zmachine`: what is live makes
its deployment active. -/
theorem listPrivateIPs_ok (hlist : Listable σ) (hdecodes : Decodes store) (twin : TwinID)
    (network : Name) : ∃ ips, listPrivateIPs store twin network = .ok ips ∧
      ∀ ip, ip ∈ ips ↔ PrivateHolder store [.zmachine] twin network ip := by
  have hrecorded : ∀ id dl, Storage.get store ⟨twin, id⟩ = .ok dl →
      ∀ vm ∈ dl.byType [.zmachine], ∃ n,
        (Storage.view store).workload ⟨twin, id⟩ n = some vm.workload ∧
          vm.workload.type = .zmachine := by
    intro id dl hget vm hvm
    obtain ⟨wl, hmem, htype, rfl⟩ := Deployment.mem_byType.mp hvm
    exact ⟨wl.name, (Storage.recorded_iff hget).mpr ⟨hmem, rfl⟩, List.mem_singleton.mp htype⟩
  have hlisted : listPrivateIPs store twin network =
      .ok (((contractsOf store twin).flatMap (activeOf store twin)).flatMap fun dl =>
        (dl.byType [.zmachine]).flatMap (privateIPsOf network)) := by
    rw [listPrivateIPs, list_eq hlist]
    refine foldlM_append (fun dl hdl acc => ?_) []
    obtain ⟨id, -, hactive⟩ := List.mem_flatMap.mp hdl
    have hvms : ∀ vm ∈ dl.byType [.zmachine], ∀ acc,
        addPrivateIPs network acc vm = .ok (acc ++ privateIPsOf network vm) := by
      intro vm hvm acc
      obtain ⟨n, hvm, htype⟩ := hrecorded id dl (mem_activeOf.mp hactive).1 vm hvm
      exact addPrivateIPs_eq (fun hlive =>
        hdecodes.interfaces _ n _ hvm ⟨by simp [htype], hlive⟩) acc
    exact foldlM_append hvms acc
  refine ⟨_, hlisted, fun ip => ?_⟩
  simp only [List.mem_flatMap, mem_privateIPsOf, mem_activeOf]
  constructor
  · intro h
    obtain ⟨dl, ⟨id, -, hget, -⟩, vm, hvm, hlive, hinf⟩ := h
    obtain ⟨n, hvm, htype⟩ := hrecorded id dl hget vm hvm
    exact ⟨id, n, _, hvm, ⟨by simp [htype], hlive⟩, hinf⟩
  · intro h
    obtain ⟨id, n, wl, hwl, hamong, hinf⟩ := h
    have hid := mem_contractsOf hlist hwl
    obtain ⟨dl, hdl⟩ := get_eq hlist hid
    obtain ⟨hmem, -⟩ := (Storage.recorded_iff hdl).mp hwl
    have hactive : dl.isActive = true := List.any_eq_true.mpr ⟨wl, hmem, hamong.state⟩
    exact ⟨dl, ⟨id, hid, hdl, hactive⟩, dl.withID wl,
      Deployment.mem_byType.mpr ⟨wl, hmem, hamong.type, rfl⟩, hamong.state, hinf⟩

/-! ## No address left out -/

theorem publicHolder_isOkay {ip : String} : PublicHolder store ResultState.isOkay ip ↔
    PublicHolder store (· == .ok) ip ∨ PublicHolder store (· == .paused) ip := by
  constructor
  · intro h
    obtain ⟨key, n, wl, hwl, hamong, hip⟩ := h
    rcases (Bool.or_eq_true _ _).mp hamong.state with hok | hpaused
    · exact .inl ⟨key, n, wl, hwl, ⟨hamong.type, hok⟩, hip⟩
    · exact .inr ⟨key, n, wl, hwl, ⟨hamong.type, hpaused⟩, hip⟩
  · intro h
    rcases h with h | h
    · obtain ⟨key, n, wl, hwl, hamong, hip⟩ := h
      exact ⟨key, n, wl, hwl, ⟨hamong.type, (Bool.or_eq_true _ _).mpr (.inl hamong.state)⟩, hip⟩
    · obtain ⟨key, n, wl, hwl, hamong, hip⟩ := h
      exact ⟨key, n, wl, hwl, ⟨hamong.type, (Bool.or_eq_true _ _).mpr (.inr hamong.state)⟩, hip⟩

theorem privateHolder_cons {typ : WorkloadType} {types : List WorkloadType} {twin : TwinID}
    {network : Name} {ip : String} : PrivateHolder store (typ :: types) twin network ip ↔
      PrivateHolder store [typ] twin network ip ∨ PrivateHolder store types twin network ip := by
  constructor
  · intro h
    obtain ⟨id, n, wl, hwl, hamong, hinf⟩ := h
    rcases List.mem_cons.mp hamong.type with htyp | htypes
    · exact .inl ⟨id, n, wl, hwl, ⟨List.mem_singleton.mpr htyp, hamong.state⟩, hinf⟩
    · exact .inr ⟨id, n, wl, hwl, ⟨htypes, hamong.state⟩, hinf⟩
  · intro h
    rcases h with h | h
    · obtain ⟨id, n, wl, hwl, hamong, hinf⟩ := h
      have htyp := List.mem_singleton.mp hamong.type
      exact ⟨id, n, wl, hwl, ⟨List.mem_cons.mpr (.inl htyp), hamong.state⟩, hinf⟩
    · obtain ⟨id, n, wl, hwl, hamong, hinf⟩ := h
      exact ⟨id, n, wl, hwl, ⟨List.mem_cons_of_mem typ hamong.type, hamong.state⟩, hinf⟩

/-- What is to be listed of a store. -/
structure Listed (store : σ) : Prop where
  publicIPs : ∃ ips, listPublicIPs store = .ok ips ∧
    ∀ ip, ip ∈ ips ↔ PublicHolder store ResultState.isOkay ip
  privateIPs : ∀ twin network, ∃ ips, listPrivateIPs store twin network = .ok ips ∧
    ∀ ip, ip ∈ ips ↔ PrivateHolder store [.zmachine, .zmachineLight] twin network ip

/-- All addresses are listed exactly when no public IP that is paused and no
`zmachine-light` is alone in holding one. -/
theorem addresses_listed_iff (hlist : Listable σ) (hdecodes : Decodes store) :
    Listed store ↔
      (∀ ip, PublicHolder store (· == .paused) ip → PublicHolder store (· == .ok) ip) ∧
      ∀ twin network ip, PrivateHolder store [.zmachineLight] twin network ip →
        PrivateHolder store [.zmachine] twin network ip := by
  obtain ⟨ips, hips, hpublic⟩ := listPublicIPs_ok hlist hdecodes
  constructor
  · intro h
    constructor
    · intro ip hpaused
      obtain ⟨ips', hips', hall⟩ := h.publicIPs
      obtain rfl : ips = ips' := Except.ok.inj (hips.symm.trans hips')
      exact (hpublic ip).mp ((hall ip).mpr (publicHolder_isOkay.mpr (.inr hpaused)))
    · intro twin network ip hlight
      obtain ⟨ips, hips, hprivate⟩ := listPrivateIPs_ok hlist hdecodes twin network
      obtain ⟨ips', hips', hall⟩ := h.privateIPs twin network
      obtain rfl : ips = ips' := Except.ok.inj (hips.symm.trans hips')
      exact (hprivate ip).mp ((hall ip).mpr (privateHolder_cons.mpr (.inr hlight)))
  · intro h
    obtain ⟨hpaused, hlight⟩ := h
    constructor
    · refine ⟨ips, hips, fun ip => ?_⟩
      rw [hpublic, publicHolder_isOkay, or_iff_left_of_imp (hpaused ip)]
    · intro twin network
      obtain ⟨ips, hips, hprivate⟩ := listPrivateIPs_ok hlist hdecodes twin network
      refine ⟨ips, hips, fun ip => ?_⟩
      exact ((hprivate ip).trans (or_iff_left_of_imp (hlight twin network ip)).symm).trans
        privateHolder_cons.symm

end

/-! ## A machine of the other kind -/

namespace Reference

/-- The data of a machine is the address it has on the one network, the data of a public
IP's result is its IP. -/
instance (priority := low) addressing : Addressing where
  publicIP result := .ok (if result.data = "" then none else some result.data)
  interfaces wl := .ok [⟨"net", wl.data⟩]

def machine (typ : WorkloadType) (name : Name) (ip : String) : Workload :=
  { workload 0 name ip with type := typ }

def machines (workloads : List Workload) : MapStore := store [deployment 0 1 workloads]

end Reference

open Reference in
theorem light_machine_left_out :
    ¬ Listed (machines [machine .zmachineLight "vm" "10.1.2.3"]) := by
  intro h
  obtain ⟨ips, hips, hall⟩ := h.privateIPs 1 "net"
  have hlisted : listPrivateIPs (machines [machine .zmachineLight "vm" "10.1.2.3"]) 1 "net" =
      .ok [] := by decide +kernel
  obtain rfl : [] = ips := Except.ok.inj (hlisted.symm.trans hips)
  have hholder : PrivateHolder (machines [machine .zmachineLight "vm" "10.1.2.3"])
      [.zmachine, .zmachineLight] 1 "net" "10.1.2.3" :=
    ⟨2, "vm", _, rfl, ⟨by decide, rfl⟩, _, rfl, List.mem_cons_self⟩
  exact List.not_mem_nil ((hall "10.1.2.3").mpr hholder)

open Reference in
theorem addresses_listed_iff_machine :
    Listed (machines [machine .zmachine "vm" "10.1.2.3"]) ↔
      (∀ ip, PublicHolder (machines [machine .zmachine "vm" "10.1.2.3"]) (· == .paused) ip →
        PublicHolder (machines [machine .zmachine "vm" "10.1.2.3"]) (· == .ok) ip) ∧
      ∀ twin network ip,
        PrivateHolder (machines [machine .zmachine "vm" "10.1.2.3"]) [.zmachineLight] twin
          network ip →
        PrivateHolder (machines [machine .zmachine "vm" "10.1.2.3"]) [.zmachine] twin network ip :=
  addresses_listed_iff (fun _ => ⟨⟨_, rfl⟩, fun _ => ⟨_, rfl⟩⟩)
    ⟨fun _ _ _ _ _ => ⟨_, rfl⟩, fun _ _ _ _ _ => ⟨_, rfl⟩⟩

end Zos4.Provision
