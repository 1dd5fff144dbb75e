import EBeacon.Network.Paths

namespace EBeacon.Network

open Text

def isAPIVersion (seg : String) : Bool :=
  match seg.toList with
  | [v, digit] => v = 'v' && isDigit digit
  | _ => false

def nodeNames : List String := ["health", "identity", "peer_count", "peers", "syncing", "version"]

def configNames : List String := ["deposit_contract", "fork_schedule", "genesis", "spec"]

def namedTemplate (base : String) (names : List String) (segments : List String) : String :=
  match segments with
  | name :: _ => if name ∈ names then base ++ "/" ++ name else base ++ "/other"
  | [] => base ++ "/other"

def blockNames : List String := ["blocks", "blinded_blocks", "blobs", "blob_sidecars"]

def blockTemplate (name : String) (params : List String) : String :=
  match params with
  | [_] => "/beacon/" ++ name ++ "/{block_id}"
  | [_, part] =>
    if part ∈ ["attestations", "root"] then "/beacon/" ++ name ++ "/{block_id}/" ++ part
    else "/beacon/" ++ name ++ "/other"
  | _ => "/beacon/" ++ name ++ "/other"

def stateNames : List String :=
  ["committees", "finality_checkpoints", "fork", "pending_consolidations", "pending_deposits",
    "pending_partial_withdrawals", "proposer_lookahead", "randao", "root", "sync_committees",
    "validator_balances", "validator_identities", "validators"]

def stateTemplate (params : List String) : String :=
  match params with
  | _ :: name :: more =>
    let base := "/beacon/states/{state_id}/" ++ name
    if name ∉ stateNames then "/beacon/states/other"
    else if more = [] then base
    else if more.length = 1 ∧ name = "validators" then base ++ "/{validator_id}"
    else "/beacon/states/other"
  | _ => "/beacon/states/other"

def rewardTemplate (params : List String) : String :=
  match params with
  | [name, _] =>
    if name = "attestations" then "/beacon/rewards/attestations/{epoch}"
    else if name ∈ ["blocks", "sync_committee"] then "/beacon/rewards/" ++ name ++ "/{block_id}"
    else "/beacon/rewards/other"
  | _ => "/beacon/rewards/other"

def envelopeTemplate (params : List String) : String :=
  match params with
  | [] => "/beacon/execution_payload_envelopes"
  | [_] => "/beacon/execution_payload_envelopes/{block_id}"
  | _ => "/beacon/execution_payload_envelopes/other"

def poolNames : List String :=
  ["attestations", "attester_slashings", "proposer_slashings", "sync_committees", "voluntary_exits",
    "bls_to_execution_changes", "payload_attestations"]

def poolTemplate (params : List String) : String :=
  match params with
  | [name] => if name ∈ poolNames then "/beacon/pool/" ++ name else "/beacon/pool/other"
  | _ => "/beacon/pool/other"

def lightClientNames : List String := ["finality_update", "optimistic_update", "updates"]

def lightClientTemplate (params : List String) : String :=
  match params with
  | [] => "/beacon/light_client"
  | name :: more =>
    if name ∈ lightClientNames then "/beacon/light_client/" ++ name
    else if name = "bootstrap" ∧ more.length = 1 then "/beacon/light_client/bootstrap/{block_root}"
    else "/beacon/light_client/other"

def beaconTemplate (segments : List String) : String :=
  match segments with
  | [] => "/beacon/other"
  | name :: params =>
    if name = "genesis" then "/beacon/genesis"
    else if name = "headers" then
      if params = [] then "/beacon/headers" else "/beacon/headers/{block_id}"
    else if name ∈ blockNames then blockTemplate name params
    else if name = "states" then stateTemplate params
    else if name = "rewards" then rewardTemplate params
    else if name = "execution_payload_envelopes" then envelopeTemplate params
    else if name = "execution_payload_bids" then
      if params = [] then "/beacon/execution_payload_bids" else "/beacon/other"
    else if name = "pool" then poolTemplate params
    -- the only name whose longer paths fall through both switches
    else if name = "deposit_snapshot" then
      if params = [] then "/beacon/deposit_snapshot" else "/other"
    else if name = "light_client" then lightClientTemplate params
    else "/beacon/other"

def dutyNames : List String := ["attester", "proposer", "sync", "ptc"]

def validatorNames : List String :=
  ["attestation_data", "aggregate_and_proofs", "aggregate_attestation", "beacon_committee_selections",
    "beacon_committee_subscriptions", "builder_preferences", "contribution_and_proofs",
    "payload_attestation_data", "prepare_beacon_proposer", "proposer_preferences", "register_validator",
    "sync_committee_contribution", "sync_committee_selections", "sync_committee_subscriptions"]

def validatorTemplate (segments : List String) : String :=
  match segments with
  | [name] => if name ∈ validatorNames then "/validator/" ++ name else "/validator/other"
  | [name, _] =>
    if name = "liveness" then "/validator/liveness/{epoch}"
    else if name = "blocks" then "/validator/blocks/{slot}"
    else "/validator/other"
  | [name, part, _] =>
    if name = "duties" ∧ part ∈ dutyNames then "/validator/duties/" ++ part ++ "/{epoch}"
    else if name = "execution_payload_envelopes" then
      "/validator/execution_payload_envelopes/{slot}/{beacon_block_root}"
    else "/validator/other"
  | _ => "/validator/other"

def debugTemplate (segments : List String) : String :=
  match segments with
  | [name, part, _] =>
    if name = "beacon" ∧ part = "states" then "/debug/beacon/states/{state_id}"
    else if name = "beacon" ∧ part = "data_column_sidecars" then
      "/debug/beacon/data_column_sidecars/{block_id}"
    else "/debug/other"
  | _ => "/debug/other"

def routeTemplate (segments : List String) : String :=
  match segments with
  | [] => ""
  | group :: segments =>
    if group = "events" then "/events"
    else if group = "node" then namedTemplate "/node" nodeNames segments
    else if group = "config" then namedTemplate "/config" configNames segments
    else if group = "beacon" then beaconTemplate segments
    else if group = "validator" then validatorTemplate segments
    else if group = "debug" then debugTemplate segments
    else "/other"

def normalizeAPIPath (path : String) : String :=
  let path := trimSpace path
  if path = "" then "/"
  else
    let path := if path = "/" ∨ trimRight '/' path = "" then "/" else trimRight '/' path
    if path = "/healthz" then path
    else match pathSegments path with
      | eth :: version :: segments =>
        if eth = "eth" ∧ isAPIVersion version then "/" ++ eth ++ "/" ++ version ++ routeTemplate segments
        else "/other"
      | _ => "/other"

section Templates

def namedTemplates (base : String) (names : List String) : List String :=
  (base ++ "/other") :: names.map (base ++ "/" ++ ·)

def blockTemplates (name : String) : List String :=
  ["/beacon/" ++ name ++ "/other", "/beacon/" ++ name ++ "/{block_id}"] ++
    ["attestations", "root"].map ("/beacon/" ++ name ++ "/{block_id}/" ++ ·)

def stateTemplates : List String :=
  ["/beacon/states/other", "/beacon/states/{state_id}/" ++ "validators" ++ "/{validator_id}"] ++
    stateNames.map ("/beacon/states/{state_id}/" ++ ·)

def rewardTemplates : List String :=
  ["/beacon/rewards/other", "/beacon/rewards/attestations/{epoch}"] ++
    ["blocks", "sync_committee"].map ("/beacon/rewards/" ++ · ++ "/{block_id}")

def envelopeTemplates : List String :=
  ["/beacon/execution_payload_envelopes", "/beacon/execution_payload_envelopes/{block_id}",
    "/beacon/execution_payload_envelopes/other"]

def poolTemplates : List String := "/beacon/pool/other" :: poolNames.map ("/beacon/pool/" ++ ·)

def lightClientTemplates : List String :=
  ["/beacon/light_client", "/beacon/light_client/bootstrap/{block_root}", "/beacon/light_client/other"] ++
    lightClientNames.map ("/beacon/light_client/" ++ ·)

def plainBeaconTemplates : List String :=
  ["/beacon/other", "/beacon/genesis", "/beacon/headers", "/beacon/headers/{block_id}",
    "/beacon/execution_payload_bids", "/beacon/deposit_snapshot", "/other"]

def beaconTemplates : List String :=
  [plainBeaconTemplates, blockNames.flatMap blockTemplates, stateTemplates, rewardTemplates,
    envelopeTemplates, poolTemplates, lightClientTemplates].flatten

def validatorTemplates : List String :=
  ["/validator/other", "/validator/liveness/{epoch}", "/validator/blocks/{slot}",
    "/validator/execution_payload_envelopes/{slot}/{beacon_block_root}"] ++
  validatorNames.map ("/validator/" ++ ·) ++ dutyNames.map ("/validator/duties/" ++ · ++ "/{epoch}")

def debugTemplates : List String :=
  ["/debug/other", "/debug/beacon/states/{state_id}", "/debug/beacon/data_column_sidecars/{block_id}"]

def routeTemplates : List String :=
  [["", "/events", "/other"], namedTemplates "/node" nodeNames, namedTemplates "/config" configNames,
    beaconTemplates, validatorTemplates, debugTemplates].flatten

def apiVersions : List String := ["v0", "v1", "v2", "v3", "v4", "v5", "v6", "v7", "v8", "v9"]

def apiPaths : List String :=
  ["/", "/healthz", "/other"] ++ apiVersions.flatMap (fun version =>
    routeTemplates.map ("/" ++ "eth" ++ "/" ++ version ++ ·))

theorem ite_mem {c : Prop} [Decidable c] {t e : String} {templates : List String}
    (ht : c → t ∈ templates) (he : ¬c → e ∈ templates) : (if c then t else e) ∈ templates := by
  by_cases hc : c
  · rw [if_pos hc]
    exact ht hc
  · rw [if_neg hc]
    exact he hc

theorem namedTemplate_mem (base : String) (names segments : List String) :
    namedTemplate base names segments ∈ namedTemplates base names := by
  unfold namedTemplate namedTemplates
  split
  · split_ifs with hname
    · exact List.mem_cons_of_mem _ (List.mem_map_of_mem hname)
    · exact List.mem_cons_self
  · exact List.mem_cons_self

theorem blockTemplate_mem (name : String) (params : List String) :
    blockTemplate name params ∈ blockTemplates name := by
  unfold blockTemplate blockTemplates
  split
  · simp
  · split_ifs with hpart
    · exact List.mem_append_right _ (List.mem_map_of_mem hpart)
    · simp
  · simp

theorem stateTemplate_mem (params : List String) : stateTemplate params ∈ stateTemplates := by
  have hother : "/beacon/states/other" ∈ stateTemplates := List.mem_cons_self
  unfold stateTemplate
  split
  · dsimp only
    split_ifs with hname hmore hvalidators
    · exact List.mem_append_right _ (List.mem_map_of_mem hname)
    · rw [hvalidators.2]
      exact List.mem_cons_of_mem _ List.mem_cons_self
    · exact hother
    · exact hother
  · exact hother

theorem rewardTemplate_mem (params : List String) : rewardTemplate params ∈ rewardTemplates := by
  have hother : "/beacon/rewards/other" ∈ rewardTemplates := List.mem_cons_self
  unfold rewardTemplate
  split
  · split_ifs with _ hname
    · exact List.mem_cons_of_mem _ List.mem_cons_self
    · exact List.mem_append_right _ (List.mem_map_of_mem hname)
    · exact hother
  · exact hother

theorem envelopeTemplate_mem (params : List String) : envelopeTemplate params ∈ envelopeTemplates := by
  unfold envelopeTemplate envelopeTemplates
  split <;> simp

theorem poolTemplate_mem (params : List String) : poolTemplate params ∈ poolTemplates := by
  unfold poolTemplate poolTemplates
  split
  · split_ifs with hname
    · exact List.mem_cons_of_mem _ (List.mem_map_of_mem hname)
    · exact List.mem_cons_self
  · exact List.mem_cons_self

theorem lightClientTemplate_mem (params : List String) :
    lightClientTemplate params ∈ lightClientTemplates := by
  unfold lightClientTemplate
  split
  · exact List.mem_cons_self
  · split_ifs with hname
    · exact List.mem_append_right _ (List.mem_map_of_mem hname)
    · exact List.mem_cons_of_mem _ List.mem_cons_self
    · exact List.mem_append_left _ (by simp)

theorem beaconTemplate_mem (segments : List String) : beaconTemplate segments ∈ beaconTemplates := by
  have hplain : ∀ template ∈ plainBeaconTemplates, template ∈ beaconTemplates :=
    fun template h => List.mem_flatten_of_mem List.mem_cons_self h
  unfold beaconTemplate
  split
  · exact hplain _ (by decide)
  · rename_i name params
    refine ite_mem (fun _ => hplain _ (by decide)) fun _ => ?_
    refine ite_mem (fun _ => ite_mem (fun _ => ?_) fun _ => ?_) fun _ => ?_
    · exact hplain _ (by decide)
    · exact hplain _ (by decide)
    refine ite_mem (fun hblock => ?_) fun _ => ?_
    · have hmem := List.mem_flatMap.mpr ⟨name, hblock, blockTemplate_mem name params⟩
      exact List.mem_flatten_of_mem (List.mem_of_getElem? (i := 1) rfl) hmem
    refine ite_mem (fun _ => ?_) fun _ => ?_
    · exact List.mem_flatten_of_mem (List.mem_of_getElem? (i := 2) rfl) (stateTemplate_mem params)
    refine ite_mem (fun _ => ?_) fun _ => ?_
    · exact List.mem_flatten_of_mem (List.mem_of_getElem? (i := 3) rfl) (rewardTemplate_mem params)
    refine ite_mem (fun _ => ?_) fun _ => ?_
    · exact List.mem_flatten_of_mem (List.mem_of_getElem? (i := 4) rfl) (envelopeTemplate_mem params)
    refine ite_mem (fun _ => ite_mem (fun _ => ?_) fun _ => ?_) fun _ => ?_
    · exact hplain _ (by decide)
    · exact hplain _ (by decide)
    refine ite_mem (fun _ => ?_) fun _ => ?_
    · exact List.mem_flatten_of_mem (List.mem_of_getElem? (i := 5) rfl) (poolTemplate_mem params)
    refine ite_mem (fun _ => ite_mem (fun _ => ?_) fun _ => ?_) fun _ => ?_
    · exact hplain _ (by decide)
    · exact hplain _ (by decide)
    refine ite_mem (fun _ => ?_) fun _ => hplain _ (by decide)
    exact List.mem_flatten_of_mem (List.mem_of_getElem? (i := 6) rfl) (lightClientTemplate_mem params)

theorem validatorTemplate_mem (segments : List String) : validatorTemplate segments ∈ validatorTemplates := by
  have hother : "/validator/other" ∈ validatorTemplates := List.mem_cons_self
  unfold validatorTemplate
  split
  · split_ifs with hname
    · exact List.mem_append_left _ (List.mem_append_right _ (List.mem_map_of_mem hname))
    · exact hother
  · split_ifs
    · exact List.mem_append_left _ (List.mem_append_left _ (by decide))
    · exact List.mem_append_left _ (List.mem_append_left _ (by decide))
    · exact hother
  · split_ifs with hduty
    · exact List.mem_append_right _ (List.mem_map.mpr ⟨_, hduty.2, rfl⟩)
    · exact List.mem_append_left _ (List.mem_append_left _ (by decide))
    · exact hother
  · exact hother

theorem debugTemplate_mem (segments : List String) : debugTemplate segments ∈ debugTemplates := by
  unfold debugTemplate debugTemplates
  split
  · split_ifs <;> simp
  · simp

theorem routeTemplate_mem (segments : List String) : routeTemplate segments ∈ routeTemplates := by
  have hplain : ∀ template ∈ ["", "/events", "/other"], template ∈ routeTemplates :=
    fun template h => List.mem_flatten_of_mem List.mem_cons_self h
  unfold routeTemplate
  split
  · exact hplain _ (by decide)
  · rename_i group segments
    refine ite_mem (fun _ => hplain _ (by decide)) fun _ => ?_
    refine ite_mem (fun _ => ?_) fun _ => ?_
    · have hmem := namedTemplate_mem "/node" nodeNames segments
      exact List.mem_flatten_of_mem (List.mem_of_getElem? (i := 1) rfl) hmem
    refine ite_mem (fun _ => ?_) fun _ => ?_
    · have hmem := namedTemplate_mem "/config" configNames segments
      exact List.mem_flatten_of_mem (List.mem_of_getElem? (i := 2) rfl) hmem
    refine ite_mem (fun _ => ?_) fun _ => ?_
    · exact List.mem_flatten_of_mem (List.mem_of_getElem? (i := 3) rfl) (beaconTemplate_mem segments)
    refine ite_mem (fun _ => ?_) fun _ => ?_
    · exact List.mem_flatten_of_mem (List.mem_of_getElem? (i := 4) rfl) (validatorTemplate_mem segments)
    refine ite_mem (fun _ => ?_) fun _ => hplain _ (by decide)
    exact List.mem_flatten_of_mem (List.mem_of_getElem? (i := 5) rfl) (debugTemplate_mem segments)

theorem digit_cases {digit : Char} (h : isDigit digit = true) :
    digit ∈ ['0', '1', '2', '3', '4', '5', '6', '7', '8', '9'] := by
  rw [isDigit, Bool.and_eq_true, decide_eq_true_eq, decide_eq_true_eq] at h
  have hlow : 48 ≤ digit.toNat := h.1
  have hhigh : digit.toNat ≤ 57 := h.2
  have hall : ∀ n < 10, Char.ofNat (48 + n) ∈ ['0', '1', '2', '3', '4', '5', '6', '7', '8', '9'] := by
    decide
  rw [← Char.ofNat_toNat digit, show digit.toNat = 48 + (digit.toNat - 48) by omega]
  exact hall (digit.toNat - 48) (by omega)

theorem mem_apiVersions {seg : String} (h : isAPIVersion seg = true) : seg ∈ apiVersions := by
  unfold isAPIVersion at h
  split at h
  · rename_i v digit hseg
    rw [Bool.and_eq_true, decide_eq_true_eq] at h
    obtain ⟨rfl, hdigit⟩ := h
    have hstr : seg = String.ofList ['v', digit] := by rw [← hseg, String.ofList_toList]
    have hall : ∀ digit ∈ ['0', '1', '2', '3', '4', '5', '6', '7', '8', '9'],
        String.ofList ['v', digit] ∈ apiVersions :=
      forall_mem_of_all (by decide)
    rw [hstr]
    exact hall digit (digit_cases hdigit)
  · cases h

theorem normalizeAPIPath_mem (path : String) : normalizeAPIPath path ∈ apiPaths := by
  have hplain : ∀ template ∈ ["/", "/healthz", "/other"], template ∈ apiPaths :=
    fun template h => List.mem_append_left _ h
  unfold normalizeAPIPath
  dsimp only
  generalize (if trimSpace path = "/" ∨ trimRight '/' (trimSpace path) = "" then "/"
    else trimRight '/' (trimSpace path)) = trimmed
  split_ifs with hempty hhealthz
  · exact hplain _ (by decide)
  · rw [hhealthz]
    exact hplain _ (by decide)
  · split
    · rename_i eth version segments _
      split_ifs with hversion
      · obtain ⟨rfl, hversion⟩ := hversion
        refine List.mem_append_right _ (List.mem_flatMap.mpr ⟨version, mem_apiVersions hversion, ?_⟩)
        exact List.mem_map_of_mem (routeTemplate_mem segments)
      · exact hplain _ (by decide)
    · exact hplain _ (by decide)

end Templates

end EBeacon.Network
