import Clausal.Proofs.ModelGrowth

/-!
# What calls demand

A `Demand` is what a call asks of an assignment, in the caller's terms. The clauses that a call adds
encode its demands over the counter cells that it takes (`Encodes`): an assignment that meets the
demands extends to the cells in exactly one way, and no other assignment does.
-/

namespace Clausal

/-! ## Demands -/

/-- A condition on assignments that a caller asks for. -/
inductive Demand
  | unit (a : Lit)
  | clause (c : Clause)
  | implication (a : Lit) (bs : List Lit)
  | cardinality (c : Cardinality)

namespace Demand

def lits : Demand → List Lit
  | unit a => [a]
  | clause c => c.lits
  | implication a bs => a :: bs
  | cardinality c => c.lits

def Holds (d : Demand) (τ : Valuation) : Prop :=
  match d with
  | unit a => a.holds τ
  | clause c => c.Holds τ
  | implication a bs => a.holds τ → ∃ b ∈ bs, b.holds τ
  | cardinality c => c.Holds τ

theorem holds_congr {d : Demand} {σ τ : Valuation} (h : ∀ l ∈ d.lits, σ l.var = τ l.var) :
    d.Holds σ ↔ d.Holds τ := by
  cases d with
  | unit a =>
    show a.holds σ = true ↔ a.holds τ = true
    rw [Lit.holds_congr (h a (List.mem_singleton.mpr rfl))]
  | clause c => exact Clause.holds_congr h
  | implication a bs =>
    obtain ⟨ha, hbs⟩ := List.forall_mem_cons.mp h
    show (a.holds σ = true → Clause.Holds ⟨bs⟩ σ) ↔ (a.holds τ = true → Clause.Holds ⟨bs⟩ τ)
    rw [Lit.holds_congr ha, Clause.holds_congr (c := ⟨bs⟩) hbs]
  | cardinality c => exact Cardinality.holds_congr h

end Demand

namespace Model.Op

/-- The literals that the caller supplies. -/
def lits : Op → List Lit
  | addClause c | addSoftClause c => c.lits
  | addUnit a => [a]
  | addImplies a b => [a, b]
  | addImpliesAny a bs => a :: bs
  | addAtMostOne ls | addAtLeast ls _ => ls
  | addCardinality c => c.lits
  | extend cs => cs.flatMap Clause.lits
  | freshVar | freshVars _ | markUsed _ | advance _ => []

/-- What the caller asks for. A soft clause demands nothing. -/
def demands : Op → List Demand
  | addClause c => [.clause c]
  | addUnit a => [.unit a]
  | addImplies a b => [.implication a [b]]
  | addImpliesAny a bs => [.implication a bs]
  | addAtMostOne ls => [.cardinality (.atMostOne ls)]
  | addAtLeast ls k => [.cardinality (.atLeast ls k)]
  | addCardinality c => [.cardinality c]
  | extend cs => cs.map .clause
  | freshVar | freshVars _ | addSoftClause _ | markUsed _ | advance _ => []

theorem lits_of_mem_demands {o : Op} {d : Demand} (hd : d ∈ o.demands) {l : Lit}
    (hl : l ∈ d.lits) : l ∈ o.lits := by
  cases o with
  | extend cs =>
    obtain ⟨c, hc, rfl⟩ := List.mem_map.mp hd
    exact List.mem_flatMap.mpr ⟨c, hc, hl⟩
  | freshVar | freshVars | addSoftClause | markUsed | advance => cases hd
  | _ =>
    obtain rfl := List.mem_singleton.mp hd
    exact hl

end Model.Op

/-! ## Encodings -/

/-- The clauses hold under an extension to `ws` if and only if the demands hold, and there is at
most one such extension. -/
structure Encodes (cs : List Clause) (ws : List Var) (ds : List Demand) : Prop where
  sound : ∀ σ, (∀ c ∈ cs, c.Holds σ) → ∀ d ∈ ds, d.Holds σ
  complete : ∀ τ, (∀ d ∈ ds, d.Holds τ) →
    ∃ σ, Valuation.AgreesOff ws σ τ ∧ ∀ c ∈ cs, c.Holds σ
  unique : ∀ σ τ, Valuation.AgreesOff ws σ τ → (∀ c ∈ cs, c.Holds σ) → (∀ c ∈ cs, c.Holds τ) →
    ∀ v ∈ ws, σ v = τ v

namespace Encodes

/-- Clauses that say just what is demanded need no extension. -/
theorem of_iff {cs : List Clause} {ds : List Demand}
    (h : ∀ τ, (∀ c ∈ cs, c.Holds τ) ↔ ∀ d ∈ ds, d.Holds τ) : Encodes cs [] ds where
  sound σ := (h σ).mp
  complete τ hd := ⟨τ, fun _ _ => rfl, (h τ).mpr hd⟩
  unique _ _ _ _ _ _ hv := by cases hv

theorem nil : Encodes [] [] [] := of_iff fun τ => by simp

/-- Later clauses may read earlier cells only if no demand does, and never the other way round. -/
theorem append {cs cs' : List Clause} {ws ws' : List Var} {ds ds' : List Demand}
    (h : Encodes cs ws ds) (h' : Encodes cs' ws' ds')
    (hcs : ∀ c ∈ cs, ∀ l ∈ c.lits, l.var ∉ ws') (hws : ∀ v ∈ ws, v ∉ ws')
    (hds : ∀ d ∈ ds', ∀ l ∈ d.lits, l.var ∉ ws) :
    Encodes (cs ++ cs') (ws ++ ws') (ds ++ ds') where
  sound σ hσ := by
    obtain ⟨hσ, hσ'⟩ := List.forall_mem_append.mp hσ
    exact List.forall_mem_append.mpr ⟨h.sound σ hσ, h'.sound σ hσ'⟩
  complete τ hτ := by
    obtain ⟨hτ, hτ'⟩ := List.forall_mem_append.mp hτ
    obtain ⟨σ, hagree, hσ⟩ := h.complete τ hτ
    have hσ' : ∀ d ∈ ds', d.Holds σ := fun d hd =>
      (Demand.holds_congr fun l hl => hagree l.var (hds d hd l hl)).mpr (hτ' d hd)
    obtain ⟨ρ, hagree', hρ⟩ := h'.complete σ hσ'
    refine ⟨ρ, fun v hv => ?_, List.forall_mem_append.mpr ⟨fun c hc => ?_, hρ⟩⟩
    · rw [List.mem_append, not_or] at hv
      rw [hagree' v hv.2, hagree v hv.1]
    · exact (Clause.holds_congr fun l hl => hagree' l.var (hcs c hc l hl)).mpr (hσ c hc)
  unique σ τ hagree hσ hτ := by
    obtain ⟨hσ, hσ'⟩ := List.forall_mem_append.mp hσ
    obtain ⟨hτ, hτ'⟩ := List.forall_mem_append.mp hτ
    -- `ρ` differs from `τ` on the earlier cells alone, and the earlier clauses cannot tell it from `σ`
    let ρ : Valuation := fun v => if v ∈ ws' then τ v else σ v
    have hρσ : ∀ v, v ∉ ws' → ρ v = σ v := fun v hv => if_neg hv
    have hρτ : Valuation.AgreesOff ws ρ τ := by
      intro v hv
      by_cases hv' : v ∈ ws'
      · exact if_pos hv'
      · rw [hρσ v hv', hagree v (by simp [hv, hv'])]
    have hρ : ∀ c ∈ cs, c.Holds ρ := fun c hc =>
      (Clause.holds_congr fun l hl => hρσ l.var (hcs c hc l hl)).mpr (hσ c hc)
    have hws' : ∀ v ∈ ws, σ v = τ v := fun v hv => by
      rw [← hρσ v (hws v hv), h.unique ρ τ hρτ hρ hτ v hv]
    have hagree' : Valuation.AgreesOff ws' σ τ := by
      intro v hv'
      by_cases hv : v ∈ ws
      · exact hws' v hv
      · exact hagree v (by simp [hv, hv'])
    exact List.forall_mem_append.mpr ⟨hws', h'.unique σ τ hagree' hσ' hτ'⟩

/-- The clauses of a counter over used inputs encode its bound. -/
theorem counter {p : VarPool} {ls : List Lit} {k : Nat} {r : SequentialCounter.Encoded Cnf}
    {f : Cnf} (hin : ∀ l ∈ ls, l.var ∉ r.matrix.vars)
    (h : (SequentialCounter.ofLits ls).encode k p f = .ok r) :
    Encodes (SequentialCounter.clausesOver ls r.matrix.vars k) r.matrix.vars
      [.cardinality (.atLeast ls k)] := by
  obtain ⟨hk, hn, hroom, hm, -, -⟩ := SequentialCounter.encode_ok h
  rw [hm] at hin ⊢
  refine ⟨fun σ hσ => ?_, fun τ hτ => ?_, fun σ τ hagree hσ hτ => ?_⟩
  · exact List.forall_mem_singleton.mpr
      ((SequentialCounter.clausesOver_hold_iff hn hk hroom).mp hσ).2
  · have hb : k ≤ trueCount ls τ := hτ _ (List.mem_singleton.mpr rfl)
    exact SequentialCounter.exists_extension hn hk hroom hin hb
  · exact SequentialCounter.cells_unique hn hk hroom (fun l hl => hagree l.var (hin l hl)) hσ hτ

end Encodes

end Clausal
