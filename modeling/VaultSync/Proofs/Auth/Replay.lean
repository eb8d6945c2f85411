import Mathlib.Data.List.Basic
import Mathlib.Data.List.Induction
import VaultSync.Proofs.Sync.Invariant

/-! The exchanges of authentication as what they are: uses of the services one after the other, each in the
state that the one before it left. So what holds of a single use can be carried along a whole dialogue. -/
namespace VaultSync.AuthServices

variable {σ : Type} {services : AuthServices σ} {keyPath : String} {start s s' : σ} {exchange : Exchange}
  {before exchanges : List Exchange}

/-- An interaction is what a use of the services answers, and the state is left as the use leaves it. -/
def Uses (services : AuthServices σ) (s : σ) : Interaction → σ → Prop
  | .chose answer, s' => services.choose s = (answer, s')
  | .provisioned choice path answer, s' => services.provision choice path s = (answer, s')
  | .checkedProtection path answer, s' => services.isEncrypted path s = (answer, s')
  | .asked prompt answer, s' => services.ask prompt s = (answer, s')
  | .verified path secret answer, s' => services.verify path secret s = (answer, s')

/-- Exchanges one after the other lead from one state to another. -/
inductive Leads (services : AuthServices σ) (start : σ) : List Exchange → σ → Prop
  | none : Leads services start [] start
  | use {exchanges : List Exchange} {exchange : Exchange} {s s' : σ}
      (hBefore : Leads services start exchanges s) (hUse : services.Uses s exchange.interaction s') :
      Leads services start (exchanges ++ [exchange]) s'

/-- No exchange leads nowhere else. -/
theorem Leads.eq_of_nil (h : services.Leads start [] s) : s = start := by
  generalize hNil : [] = exchanges at h
  cases h with
  | none => rfl
  | use hBefore hUse => simp at hNil

/-- The last exchange is used in the state that the others lead to. -/
theorem Leads.last (h : services.Leads start (before ++ [exchange]) s') :
    ∃ s, services.Leads start before s ∧ services.Uses s exchange.interaction s' := by
  generalize hAll : before ++ [exchange] = all at h
  cases h with
  | none => simp at hAll
  | use hBefore hUse =>
      obtain ⟨rfl, hLast⟩ := List.append_inj' hAll rfl
      obtain rfl := List.singleton_inj.1 hLast
      exact ⟨_, hBefore, hUse⟩

/-- Each exchange is a use in the state that those before it lead to. -/
theorem Leads.split {behind : List Exchange} (h : services.Leads start (before ++ exchange :: behind) s') :
    ∃ s next, services.Leads start before s ∧ services.Uses s exchange.interaction next ∧
      (behind = [] → next = s') := by
  induction behind using List.reverseRecOn generalizing s' with
  | nil =>
      obtain ⟨s, hBefore, hUse⟩ := h.last
      exact ⟨s, s', hBefore, hUse, fun _ => rfl⟩
  | append_singleton behind last ih =>
      rw [← List.cons_append, ← List.append_assoc] at h
      obtain ⟨middle, hMiddle, -⟩ := h.last
      obtain ⟨s, next, hBefore, hUse, -⟩ := ih hMiddle
      exact ⟨s, next, hBefore, hUse, fun hNil => absurd hNil (by simp)⟩

variable {α : Type} {write : Exchange → α}

/-- What is written down of authentication leads from where it began to where it stands. -/
theorem leads_logged (services : AuthServices σ) (keyPath : String) (start : σ) (write : Exchange → α) :
    (services.logged keyPath write).Keeps keyPath fun t =>
      ∃ exchanges, t.log = exchanges.map write ∧ services.Leads start exchanges t.state := by
  have hNote (interaction : Interaction) (t : Logged α σ) (next : σ)
      (hUse : services.Uses t.state interaction next)
      (h : ∃ exchanges, t.log = exchanges.map write ∧ services.Leads start exchanges t.state) :
      ∃ exchanges, t.log ++ [write ⟨services.keyPresent keyPath t.state, interaction⟩] = exchanges.map write ∧
        services.Leads start exchanges next := by
    obtain ⟨exchanges, hLog, hLeads⟩ := h
    exact ⟨exchanges ++ [⟨services.keyPresent keyPath t.state, interaction⟩], by simp [hLog], hLeads.use hUse⟩
  exact ⟨fun _ t => hNote (.asked ..) t _ rfl, fun t => hNote (.chose _) t _ rfl,
    fun _ t => hNote (.provisioned ..) t _ rfl, fun t => hNote (.checkedProtection ..) t _ rfl,
    fun _ t => hNote (.verified ..) t _ rfl⟩

/-- Authentication consists of exchanges that lead from its first state to its last one, have the form of the
dialogue, and go on exactly until one of them settles the result. -/
theorem resolve_leads (services : AuthServices σ) (request : AuthRequest) (hWrite : write.Injective) (s : σ) :
    ∃ exchanges,
      (services.logged request.keyPath write).resolve request ⟨[], s⟩ =
        ((services.resolve request s).1, ⟨exchanges.map write, (services.resolve request s).2⟩) ∧
      services.Leads s exchanges (services.resolve request s).2 ∧
      Dialogue request exchanges ∧ Settled request exchanges (services.resolve request s).1 := by
  obtain ⟨exchanges, hRun, hConversed⟩ := services.resolve_dialogue request write ⟨[], s⟩
  have hKept : ∃ exchanges,
      ((services.logged request.keyPath write).resolve request ⟨[], s⟩).2.log = exchanges.map write ∧
        services.Leads s exchanges ((services.logged request.keyPath write).resolve request ⟨[], s⟩).2.state :=
    (services.leads_logged request.keyPath s write).resolve ⟨[], rfl, .none⟩
  rw [hRun] at hKept
  obtain ⟨others, hLog, hLeads⟩ := hKept
  obtain rfl : exchanges = others := (List.map_injective_iff.2 hWrite) hLog
  exact ⟨exchanges, hRun, hLeads, hConversed.form, hConversed.settled⟩

end VaultSync.AuthServices
