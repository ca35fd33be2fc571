import Zos4.Proofs.Addresses
import Zos4.Proofs.Signed
import Zos4.Proofs.Provenance

/-!
# No address is made up

The node lists the addresses that are in use to whoever sets up the network. A public
address is listed only if the manager of a public IP came back with it, and a private one
only if a machine of a deployment that the twin had signed has it
(`listed_addresses_accounted`), whatever else was sent to the node.
-/

namespace Zos4.Provision

/-- What a loop collects is what its turns collect. -/
theorem foldlM_collects {α β ε : Type} {f : List β → α → Except ε (List β)} {P : β → Prop}
    {l : List α} (h : ∀ a ∈ l, ∀ acc res, f acc a = .ok res → ∀ b ∈ res, b ∈ acc ∨ P b)
    {acc res : List β} (hres : l.foldlM f acc = .ok res) {b : β} (hb : b ∈ res) :
    b ∈ acc ∨ P b := by
  induction l generalizing acc with
  | nil =>
      cases hres
      exact .inl hb
  | cons a l ih =>
      rw [List.foldlM_cons] at hres
      cases hturn : f acc a with
      | error err =>
          rw [hturn] at hres
          cases hres
      | ok mid =>
          rw [hturn] at hres
          rcases ih (fun a' ha' => h a' (List.mem_cons_of_mem a ha')) hres with hmid | hb
          · exact h a List.mem_cons_self acc mid hturn b hmid
          · exact .inr hb

section

variable [Addressing] {σ : Type} [Storage σ] {store : σ}

/-! ## The two lists -/

omit [Addressing] in
theorem mapError_ok {α : Type} {g : GoError → GoError} {x : Except GoError α} {a : α}
    (h : x.mapError g = .ok a) : x = .ok a := by
  cases x with
  | error err => cases h
  | ok b =>
      cases h
      rfl

omit [Addressing] in
theorem workload_of_get {key : DeploymentKey} {dl : Deployment}
    (hget : Storage.get store key = .ok dl) {types : List WorkloadType} {wl : WorkloadWithID}
    (hwl : wl ∈ dl.byType types) :
    (Storage.view store).workload key wl.workload.name = some wl.workload ∧
      wl.workload.type ∈ types := by
  obtain ⟨w, hw, htype, rfl⟩ := Deployment.mem_byType.mp hwl
  obtain ⟨_, _, _, hworkloads⟩ := Storage.get_ok hget
  exact ⟨(hworkloads w).mp hw, htype⟩

theorem mem_addPublicIP {ips res : List String} {workload : WorkloadWithID}
    (h : addPublicIP ips workload = .ok res) {ip : String} (hip : ip ∈ res) :
    ip ∈ ips ∨ workload.workload.result.state = .ok ∧
      Addressing.publicIP workload.workload.result = .ok (some ip) := by
  rw [addPublicIP] at h
  split at h
  · cases h
    exact .inl hip
  · next hstate =>
      rw [ne_eq, Decidable.not_not] at hstate
      split at h
      · cases h
      · cases h
        exact .inl hip
      · next hdecodes =>
          cases h
          rcases List.mem_append.mp hip with hip | hip
          · exact .inl hip
          · cases List.mem_singleton.mp hip
            exact .inr ⟨hstate, hdecodes⟩

theorem mem_addDeploymentIPs {twin : TwinID} {id : ContractID} {ips res : List String}
    (h : addDeploymentIPs store twin ips id = .ok res) {ip : String} (hip : ip ∈ res) :
    ip ∈ ips ∨ PublicHolder store (· == .ok) ip := by
  rw [addDeploymentIPs] at h
  cases hget : (Storage.get store ⟨twin, id⟩).mapError (·.wrap "failed to load deployment") with
  | error err =>
      rw [hget] at h
      cases h
  | ok dl =>
      rw [hget] at h
      refine foldlM_collects (fun wl hwl acc res hturn b hb => ?_) h hip
      rcases mem_addPublicIP hturn hb with hacc | ⟨hstate, hdecodes⟩
      · exact .inl hacc
      · obtain ⟨hstored, htype⟩ := workload_of_get (mapError_ok hget) hwl
        refine .inr ⟨_, _, _, hstored, ⟨htype, ?_⟩, hdecodes⟩
        rw [hstate]
        rfl

theorem mem_addTwinIPs {twin : TwinID} {ips res : List String}
    (h : addTwinIPs store ips twin = .ok res) {ip : String} (hip : ip ∈ res) :
    ip ∈ ips ∨ PublicHolder store (· == .ok) ip := by
  rw [addTwinIPs] at h
  cases hids : (Storage.byTwin store twin).mapError
    (·.wrap "failed to list twin deployment") with
  | error err =>
      rw [hids] at h
      cases h
  | ok ids =>
      rw [hids] at h
      exact foldlM_collects (fun id _ acc res hturn b hb => mem_addDeploymentIPs hturn hb) h hip

theorem mem_listPublicIPs {ips : List String} (h : listPublicIPs store = .ok ips) {ip : String}
    (hip : ip ∈ ips) : PublicHolder store (· == .ok) ip := by
  rw [listPublicIPs] at h
  cases htwins : (Storage.twins store).mapError (·.wrap "failed to list twins") with
  | error err =>
      rw [htwins] at h
      cases h
  | ok twins =>
      rw [htwins] at h
      have hmem := foldlM_collects (P := PublicHolder store (· == .ok))
        (fun twin _ acc res hturn b hb => mem_addTwinIPs hturn hb) h hip
      exact hmem.resolve_left (List.not_mem_nil)

omit [Addressing] in
/-- The deployments of a twin are listed as they are stored. -/
theorem mem_list {twin : TwinID} {deployments : List Deployment}
    (h : list store twin = .ok deployments) {dl : Deployment} (hdl : dl ∈ deployments) :
    ∃ id, Storage.get store ⟨twin, id⟩ = .ok dl := by
  rw [list] at h
  cases hids : Storage.byTwin store twin with
  | error err =>
      rw [hids] at h
      cases h
  | ok ids =>
      rw [hids] at h
      have hmem := foldlM_collects (P := fun dl => ∃ id, Storage.get store ⟨twin, id⟩ = .ok dl)
        (fun id _ acc res hturn b hb => ?_) h hdl
      · exact hmem.resolve_left (List.not_mem_nil)
      · rw [addDeployment] at hturn
        cases hget : Storage.get store ⟨twin, id⟩ with
        | error err =>
            rw [hget] at hturn
            cases hturn
        | ok deployment =>
            rw [hget] at hturn
            by_cases hactive : deployment.isActive
            · have hres : acc ++ [deployment] = res := by
                simpa [hactive, bind, Except.bind, pure, Except.pure] using hturn
              rw [← hres] at hb
              rcases List.mem_append.mp hb with hb | hb
              · exact .inl hb
              · cases List.mem_singleton.mp hb
                exact .inr ⟨id, hget⟩
            · have hres : acc = res := by
                simpa [hactive, bind, Except.bind, pure, Except.pure] using hturn
              exact .inl (hres ▸ hb)

theorem mem_addPrivateIPs {network : Name} {ips res : List String} {vm : WorkloadWithID}
    (h : addPrivateIPs network ips vm = .ok res) {ip : String} (hip : ip ∈ res) :
    ip ∈ ips ∨ isLive vm.workload.result.state = true ∧
      ∃ interfaces, Addressing.interfaces vm.workload = .ok interfaces ∧
        ⟨network, ip⟩ ∈ interfaces := by
  rw [addPrivateIPs] at h
  split at h
  · cases h
    exact .inl hip
  · next hstate =>
      split at h
      · cases h
      · next interfaces hdecodes =>
          cases h
          rcases List.mem_append.mp hip with hip | hip
          · exact .inl hip
          · obtain ⟨inf, hinf, rfl⟩ := List.mem_map.mp hip
            obtain ⟨hinf, hnetwork⟩ := List.mem_filter.mp hinf
            refine .inr ⟨?_, interfaces, hdecodes, ?_⟩
            · simpa [isLive] using hstate
            · rw [decide_eq_true_eq] at hnetwork
              rw [← hnetwork]
              exact hinf

theorem mem_listPrivateIPs {twin : TwinID} {network : Name} {ips : List String}
    (h : listPrivateIPs store twin network = .ok ips) {ip : String} (hip : ip ∈ ips) :
    PrivateHolder store [.zmachine] twin network ip := by
  rw [listPrivateIPs] at h
  cases hlist : list store twin with
  | error err =>
      rw [hlist] at h
      cases h
  | ok deployments =>
      rw [hlist] at h
      have hmem := foldlM_collects (P := PrivateHolder store [.zmachine] twin network)
        (fun dl hdl acc res hturn b hb => ?_) h hip
      · exact hmem.resolve_left (List.not_mem_nil)
      · refine foldlM_collects (fun vm hvm acc res hturn b hb => ?_) hturn hb
        rcases mem_addPrivateIPs hturn hb with hacc | ⟨hlive, hinterfaces⟩
        · exact .inl hacc
        · obtain ⟨id, hget⟩ := mem_list hlist hdl
          obtain ⟨hstored, htype⟩ := workload_of_get hget hvm
          exact .inr ⟨id, _, _, hstored, ⟨htype, hlive⟩, hinterfaces⟩

/-! ## Over a run -/

/-- The interfaces of a machine are in its data; the result does not matter. -/
def InterfacesFromData : Prop :=
  ∀ wl wl', Workload.definition wl = Workload.definition wl' →
    Addressing.interfaces wl = Addressing.interfaces wl'

variable [Zosbase] [GoRuntime] {μ : Type} {r : ContractEventHandler μ}

/-- In every run, with requests through the API: a public address that is listed is in a
recorded result that a call about that workload came back with, and a private address that
is listed for a twin and a network is an interface there of a machine in a deployment that
the twin, verified, had signed. -/
theorem listed_addresses_accounted (hown : UpgradeListsOwn) (hnames : UpgradeNamesOwn)
    (hmapped : r.engine.Mapped) (hdata : InterfacesFromData) {s₀ s : Sys σ μ}
    (hfresh : s₀.Fresh) (hempty : ∀ k n, s₀.world.view.workload k n = none)
    (hrun : Run r ThroughApi s₀ s) :
    (∀ ips, listPublicIPs s.world.store = .ok ips → ∀ ip ∈ ips, ∃ k n wl,
      s.world.view.workload k n = some wl ∧ Addressing.publicIP wl.result = .ok (some ip) ∧
      ∃ ev ∈ s.log, ev.answer = some (⟨k.twin, k.contract, n⟩, wl.result, none)) ∧
    ∀ twin network ips, listPrivateIPs s.world.store twin network = .ok ips → ∀ ip ∈ ips,
      ∃ dl, Vouched s.log dl ∧ dl.twinID = twin ∧ ∃ wl ∈ dl.workloads, wl.type = .zmachine ∧
        ∃ interfaces, Addressing.interfaces wl = .ok interfaces ∧
          ⟨network, ip⟩ ∈ interfaces := by
  have hsigned := hrun.signed hown hfresh hempty
  have hreported := hrun.reported hnames hmapped hfresh hempty
  refine ⟨fun ips hips ip hip => ?_, fun twin network ips hips ip hip => ?_⟩
  · obtain ⟨k, n, wl, hwl, hamong, hdecodes⟩ := mem_listPublicIPs hips hip
    refine ⟨k, n, wl, hwl, hdecodes, (hreported.world.stored k n wl hwl).inUse ?_⟩
    have hstate : (wl.result.state == .ok) = true := hamong.state
    rw [ResultState.isOkay, hstate]
    rfl
  · obtain ⟨contract, n, wl, hwl, hamong, interfaces, hdecodes, hmem⟩ :=
      mem_listPrivateIPs hips hip
    obtain ⟨dl, hvouched, hkey, w, hw, hdefinition⟩ := hsigned.world.stored _ n wl hwl
    refine ⟨dl, hvouched, congrArg DeploymentKey.twin hkey, w, hw, ?_, interfaces, ?_, hmem⟩
    · have htype : (Workload.definition w).type = (Workload.definition wl).type := by
        rw [hdefinition]
      exact Eq.trans htype (List.mem_singleton.mp hamong.type)
    · rw [hdata w wl hdefinition]
      exact hdecodes

end

/-! ## A machine with a public IP -/

namespace AddressedMachine

open Reference

theorem interfaces_from_data : InterfacesFromData := by
  intro wl wl' h
  have hdata : (Workload.definition wl).data = (Workload.definition wl').data := by rw [h]
  show Except.ok [(⟨"net", wl.data⟩ : MachineInterface)] = Except.ok [⟨"net", wl'.data⟩]
  rw [show wl.data = wl'.data from hdata]

/-- The node of `Reference`, which provisions public IPs and machines. -/
def node : ContractEventHandler Unit := ⟨1, { engine with order := [.publicIP, .zmachine] }⟩

def sent : Deployment :=
  deployment 0 1 [⟨0, "ip", .publicIP, "1.2.3.4", "", "", Result.initial 0⟩,
    ⟨0, "vm", .zmachine, "10.1.2.3", "", "", Result.initial 0⟩]

def start : Sys MapStore Unit :=
  idle (world (store []) [] [] ⟨[(2, contract sent)], []⟩)

def provisioned : Sys MapStore Unit :=
  (start.follow node (fun _ a => SignedDeployment.onNode a)
    (.spawn (.request (.createOrUpdate 1 sent false)) :: List.replicate 5 (.routine 0) ++
      .take :: List.replicate 9 .work)).get (by decide +kernel)

end AddressedMachine

theorem listed_addresses_accounted_machine :
    (listPublicIPs AddressedMachine.provisioned.world.store = .ok ["1.2.3.4"] ∧
      listPrivateIPs AddressedMachine.provisioned.world.store 1 "net" = .ok ["10.1.2.3"]) ∧
    (∀ ips, listPublicIPs AddressedMachine.provisioned.world.store = .ok ips → ∀ ip ∈ ips,
      ∃ k n wl, AddressedMachine.provisioned.world.view.workload k n = some wl ∧
        Addressing.publicIP wl.result = .ok (some ip) ∧
        ∃ ev ∈ AddressedMachine.provisioned.log,
          ev.answer = some (⟨k.twin, k.contract, n⟩, wl.result, none)) ∧
    ∀ twin network ips,
      listPrivateIPs AddressedMachine.provisioned.world.store twin network = .ok ips →
      ∀ ip ∈ ips, ∃ dl, Vouched AddressedMachine.provisioned.log dl ∧ dl.twinID = twin ∧
        ∃ wl ∈ dl.workloads, wl.type = .zmachine ∧
          ∃ interfaces, Addressing.interfaces wl = .ok interfaces ∧
            ⟨network, ip⟩ ∈ interfaces :=
  ⟨by decide +kernel, listed_addresses_accounted SignedDeployment.upgrade_lists_own
    ForgedResult.upgrade_names_own ⟨_, rfl⟩ AddressedMachine.interfaces_from_data
    (Reference.idle_fresh rfl) (fun _ _ => rfl)
    (Run.of_follow (fun _ _ => SignedDeployment.through_api) _ (Option.some_get _).symm)⟩

end Zos4.Provision
