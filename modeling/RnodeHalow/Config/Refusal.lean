import RnodeHalow.Config.Agreement

set_option autoImplicit false

namespace RnodeHalow.Config

variable {db : Db} {o : Body} {msg : String} {aton : String → Option Ip} {env : Env}
    {body : Option Body} {n n' : Node} {cfg : NetIpConfig}

theorem halowPost_refused (refused : webApiHalowCfgPost env body n = (.error msg, n')) : n' = n := by
  unfold webApiHalowCfgPost at refused
  split at refused
  · cases refused
    rfl
  · split at refused <;> cases refused
    rfl

theorem slipPost_refused (refused : webApiSlipCfgPost env body n = (.error msg, n')) : n' = n := by
  unfold webApiSlipCfgPost at refused
  split at refused
  · cases refused
    rfl
  · split at refused <;> cases refused
    rfl

theorem logPost_refused (refused : webApiLogCfgPost env body n = (.error msg, n')) : n' = n := by
  unfold webApiLogCfgPost at refused
  split at refused
  · cases refused
    rfl
  · split at refused <;> cases refused
    rfl

-- Without the field, the mode that is stored counts, and DHCP where none is.
def AsksClient (db : Db) (o : Body) : Prop :=
  if (o.lookup "dhcp").isSome then getBool o "dhcp" = some true
  else configdbGetI32 db .netIpMode netIpModeDhcp = netIpModeDhcp

theorem netIpConfigLoad_mode (db : Db) :
    (netIpConfigLoad db).mode = configdbGetI32 db .netIpMode netIpModeDhcp := by
  unfold netIpConfigLoad
  dsimp only
  split <;> rfl

theorem netCfgOf_client (asks : AsksClient db o) :
    ∃ cfg, netCfgOf aton db o = .ok cfg ∧ cfg.mode = netIpModeDhcp := by
  unfold AsksClient at asks
  unfold netCfgOf
  split at asks
  · rename_i given
    rw [if_pos given, asks]
    exact ⟨_, rfl, rfl⟩
  · rename_i missing
    rw [if_neg missing]
    exact ⟨_, rfl, (netIpConfigLoad_mode db).trans asks⟩

theorem asksClient_of_mode (built : netCfgOf aton db o = .ok cfg)
    (dhcp : cfg.mode = netIpModeDhcp) : AsksClient db o := by
  unfold AsksClient
  unfold netCfgOf at built
  split at built
  · rename_i given
    rw [if_pos given]
    split at built
    · rename_i yes
      cases value : getBool o "dhcp" with
      | none =>
        rw [value] at yes
        cases yes
      | some b =>
        rw [value] at yes
        exact congrArg some yes
    · -- a static configuration is not that of a client
      repeat' split at built
      all_goals cases built
      cases dhcp
  · rename_i missing
    rw [if_neg missing]
    cases built
    exact (netIpConfigLoad_mode db).symm.trans dhcp

theorem netPost_refused (refused : webApiNetCfgPost env body n = (.error msg, n')) :
    (∃ o, body = some o ∧ AsksClient n.db o ∧ getBool o "dhcp_srv" = some true) ∧
        (∃ cfg : NetIpConfig, cfg.mode = netIpModeDhcp ∧
          n' = netIpConfigSave env cfg (netIpConfigApply env cfg n)) ∨
      n' = n ∧ ¬ ∃ o, body = some o ∧ AsksClient n.db o ∧ getBool o "dhcp_srv" = some true := by
  unfold webApiNetCfgPost at refused
  split at refused
  · cases refused
    exact .inr ⟨rfl, by simp⟩
  · rename_i o
    split at refused
    · rename_i failed
      cases refused
      refine .inr ⟨rfl, ?_⟩
      rintro ⟨_, ⟨⟩, asks, -⟩
      obtain ⟨cfg, built, -⟩ : ∃ cfg, netCfgOf env.aton n.db o = .ok cfg ∧ _ := netCfgOf_client asks
      rw [built] at failed
      cases failed
    · rename_i cfg built
      dsimp only at refused
      split at refused
      · split at refused
        · rename_i late
          cases refused
          have server : getBool o "dhcp_srv" = some true := by
            cases value : getBool o "dhcp_srv" with
            | none => simp [value] at late
            | some b => simpa [value] using late.1
          exact .inl ⟨⟨o, rfl, asksClient_of_mode built late.2, server⟩, cfg, late.2, rfl⟩
        · cases refused
      · cases refused

def Env.ReachesNetif (env : Env) : Prop := env.nif ∧ env.malloc ∧ env.callback

theorem netIpConfigIsValid_dhcp (dhcp : cfg.mode = netIpModeDhcp) :
    netIpConfigIsValid cfg = true := by
  unfold netIpConfigIsValid
  rw [dhcp]
  rfl

theorem netIpConfigSave_dhcp (dhcp : cfg.mode = netIpModeDhcp) (n : Node) :
    netIpConfigSave env cfg n = n.store (configdbSetI32 env.flash .netIpMode netIpModeDhcp) := by
  have client : netIpModeDhcp ≠ netIpModeStatic := by decide
  unfold netIpConfigSave
  rw [if_pos (netIpConfigIsValid_dhcp dhcp), dhcp, if_neg client]

theorem netIpConfigApply_dhcp (dhcp : cfg.mode = netIpModeDhcp) (n : Node) :
    netIpConfigApply env cfg n = n ∧ ¬env.ReachesNetif ∨
      netIpConfigApply env cfg n = n.apply (.netif cfg) ∧ env.ReachesNetif := by
  unfold netIpConfigApply Env.ReachesNetif
  rw [netIpConfigIsValid_dhcp dhcp]
  by_cases reaches : env.nif = true ∧ env.malloc = true ∧ env.callback = true
  · exact .inr ⟨by simp [reaches], reaches⟩
  · refine .inl ⟨if_neg ?_, reaches⟩
    simpa [and_assoc] using reaches

theorem store_unchanged_iff (k : Key) (v : BitVec 32) (n : Node) :
    n.store (configdbSetI32 env.flash k v) = n ↔ n.db k = some v ∨ env.flash k = false := by
  constructor
  · intro kept
    have stored := configdbSetI32_apply env.flash k k v n.db
    have same : (configdbSetI32 env.flash k v n.db).2 k = n.db k :=
      congrArg (fun m => Node.db m k) kept
    cases works : env.flash k with
    | false => exact .inr rfl
    | true =>
      rw [same, works, if_pos ⟨rfl, rfl⟩] at stored
      exact .inl stored
  · intro quiet
    unfold Node.store configdbSetI32
    rcases quiet with held | fails
    · rw [if_pos held]
    · rw [fails, if_neg Bool.false_ne_true]
      split <;> rfl

theorem netIpConfig_unchanged_iff (dhcp : cfg.mode = netIpModeDhcp) (n : Node) :
    netIpConfigSave env cfg (netIpConfigApply env cfg n) = n ↔
      ¬env.ReachesNetif ∧ (n.db .netIpMode = some netIpModeDhcp ∨ env.flash .netIpMode = false) := by
  rw [netIpConfigSave_dhcp dhcp]
  rcases netIpConfigApply_dhcp dhcp n with ⟨same, missed⟩ | ⟨applied, reached⟩
  · rw [same, store_unchanged_iff, and_iff_right missed]
  · rw [applied]
    constructor
    · intro kept
      exact absurd (congrArg Node.applied kept) (List.cons_ne_self _ _)
    · rintro ⟨missed, -⟩
      exact absurd reached missed

theorem refused_unchanged_iff {r : Request} {env : Env} {body : Option Body} {n n' : Node}
    {msg : String} (refused : post r env body n = (.error msg, n')) :
    n' = n ↔ ¬(r = .net ∧
      (∃ o, body = some o ∧ AsksClient n.db o ∧ getBool o "dhcp_srv" = some true) ∧
      (env.ReachesNetif ∨
        n.db .netIpMode ≠ some netIpModeDhcp ∧ env.flash .netIpMode = true)) := by
  cases r with
  | halow => simp [halowPost_refused refused]
  | slip => simp [slipPost_refused refused]
  | log => simp [logPost_refused refused]
  | net =>
    rcases netPost_refused refused with ⟨asked, cfg, dhcp, rfl⟩ | ⟨same, other⟩
    · rw [netIpConfig_unchanged_iff dhcp, and_iff_right rfl, and_iff_right asked, not_or, not_and_or,
        not_not, Bool.not_eq_true]
    · exact iff_of_true same fun late => other late.2.1

def clientAndServer : Body := [("dhcp", .bool true), ("dhcp_srv", .bool true)]

def madeClient : Node :=
  netIpConfigSave readyEnv netIpConfigSetDefault
    (netIpConfigApply readyEnv netIpConfigSetDefault defaultNode)

theorem clientAndServer_refused :
    post .net readyEnv (some clientAndServer) defaultNode =
      (.error "DHCP server requires static IP mode", madeClient) := by
  have client : netCfgOf readyEnv.aton defaultNode.db clientAndServer =
      .ok netIpConfigSetDefault := rfl
  unfold post webApiNetCfgPost
  simp only [client]
  rfl

def badAddress : Body := [("dhcp", .bool false), ("dhcp_srv", .bool true)]

theorem refused_unchanged_iff_net :
    (post .net readyEnv (some badAddress) defaultNode).1 = .error "bad ip_address" ∧
      (post .net readyEnv (some badAddress) defaultNode).2 = defaultNode ∧
      (post .net readyEnv (some clientAndServer) defaultNode).2 ≠ defaultNode := by
  have refused : post .net readyEnv (some badAddress) defaultNode =
      (.error "bad ip_address", (post .net readyEnv (some badAddress) defaultNode).2) := rfl
  refine ⟨rfl, (refused_unchanged_iff refused).mpr ?_, fun same => ?_⟩
  · rintro ⟨-, ⟨_, ⟨⟩, client, -⟩, -⟩
    cases client
  · rw [clientAndServer_refused] at same
    exact (refused_unchanged_iff clientAndServer_refused).mp same
      ⟨rfl, ⟨clientAndServer, rfl, rfl, rfl⟩, .inl ⟨rfl, rfl, rfl⟩⟩

theorem refused_afterEffects :
    post .net readyEnv (some clientAndServer) defaultNode =
        (.error "DHCP server requires static IP mode", madeClient) ∧
      defaultNode.db .netIpMode = some netIpModeStatic ∧
      madeClient.db .netIpMode = some netIpModeDhcp ∧
      madeClient.applied = [.netif netIpConfigSetDefault] := by
  refine ⟨clientAndServer_refused, rfl, by decide, ?_⟩
  rfl

end RnodeHalow.Config
