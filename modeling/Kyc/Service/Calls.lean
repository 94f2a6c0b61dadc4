import Kyc.Programs.Embedding
import Kyc.Programs.Later
import Kyc.Service.Ownership

/-! # What every call keeps

A discipline that no operation of any call breaks. Its calls may be put together from their
operations by the same few rules, whatever the discipline says.
-/

namespace Kyc

open Program

/-- Whatever a call of the service does keeps the discipline. -/
def KeptByCalls (deps : VerificationServiceDeps) (D : Discipline World) : Prop :=
  ∀ o w, Issued deps o → D.Inv w → D.Inv (exec deps o w).2 ∧ D.Le w (exec deps o w).2

theorem safe_storeOp {deps : VerificationServiceDeps} {D : Discipline World} {w : World}
    {o : StoreOp} {Q : Except Thrown o.Ans → World → Prop}
    (hk : ∀ w', D.Inv w' →
      D.Inv (execTx deps (.store o) w').2 ∧ D.Le w' (execTx deps (.store o) w').2)
    (hQ : ∀ w', D.Le w w' → D.Inv w' → ∀ w'', D.Le (execTx deps (.store o) w').2 w'' →
      D.Inv w'' → Q (execTx deps (.store o) w').1 w'') :
    (Service.direct (Tx.store o)).Safe D (exec deps) (fun _ _ => True) Q w := by
  refine safe_direct (safe_perform (S := TxSig) (o := .store o) fun w' hle hi => ?_)
  obtain ⟨hi', hle'⟩ := hk w' hi
  exact ⟨hi', hle', trivial, hQ w' hle hi⟩

namespace KeptByCalls

variable {deps : VerificationServiceDeps} {D : Discipline World} {w : World}

theorem restrict {P : World → Prop} (hD : KeptByCalls deps D)
    (hP : ∀ w w', D.Le w w' → P w → P w') : KeptByCalls deps (D.restrict P) := by
  intro o w ho hi
  obtain ⟨hi', hle⟩ := hD o w ho hi.1
  exact ⟨⟨hi', hP _ _ hle hi.2⟩, hle⟩

theorem safe_issued (hD : KeptByCalls deps D) {o : ServiceOp} (ho : Issued deps o)
    {Q : Except Thrown o.Ans → World → Prop}
    (hQ : ∀ w', D.Le w w' → D.Inv w' → ∀ w'', D.Le (exec deps o w').2 w'' → D.Inv w'' →
      Q (exec deps o w').1 w'') :
    (perform (S := ServiceSig) o).Safe D (exec deps) (fun _ _ => True) Q w := by
  refine safe_perform (S := ServiceSig) (o := o) fun w' hle hi => ?_
  obtain ⟨hi', hle'⟩ := hD o w' ho hi
  exact ⟨hi', hle', trivial, hQ w' hle hi⟩

theorem safe_store (hD : KeptByCalls deps D) {o : StoreOp} (ho : TxOp.Outside (.store o))
    {Q : Except Thrown o.Ans → World → Prop}
    (hQ : ∀ w', D.Le w w' → D.Inv w' → ∀ w'', D.Le (execTx deps (.store o) w').2 w'' →
      D.Inv w'' → Q (execTx deps (.store o) w').1 w'') :
    (Service.direct (Tx.store o)).Safe D (exec deps) (fun _ _ => True) Q w :=
  safe_storeOp (fun w' hi => hD _ w' (.direct ho) hi) hQ

theorem safe_provider (hD : KeptByCalls deps D) (c : ProviderCall) :
    (Service.provider c).Safe D (exec deps) (fun _ _ => True)
      (fun r _ => ∃ n, deps.provider.answer n c = r) w :=
  hD.safe_issued (.provider c) fun w' _ _ _ _ _ => ⟨w'.providerCalls.length, rfl⟩

theorem safe_audit (hD : KeptByCalls deps D) {action : AuditAction}
    (ha : action ≠ .status_updated) (sessionId : String) (metadata : Option AuditMetadata) :
    (Service.direct (audit sessionId action metadata)).Safe D (exec deps) (fun _ _ => True)
      (fun r _ => r = .ok ()) w := by
  refine safe_direct fun w' _ hi => ?_
  obtain ⟨hi₁, hle₁⟩ := hD (.direct .newId) w' (.direct trivial) hi
  refine ⟨hi₁, hle₁, trivial, fun w'' _ hi' => ?_⟩
  let entry : NewAuditEntry :=
    ⟨deps.newId w'.issued, sessionId, action, sanitizeAuditMetadata metadata⟩
  obtain ⟨hi₂, hle₂⟩ := hD (.direct (.store (.appendAuditEntry entry))) w'' (.direct ha) hi'
  exact ⟨hi₂, hle₂, trivial, fun _ _ _ => rfl⟩

theorem safe_anyhow (hD : KeptByCalls deps D) {α : Type} {p : Service α}
    (hp : p.Uses (Issued deps)) : p.Safe D (exec deps) (fun _ _ => True) Anyhow w :=
  hp.safe fun o w ho hi => ⟨(hD o w ho hi).1, (hD o w ho hi).2, trivial⟩

end KeptByCalls

end Kyc
