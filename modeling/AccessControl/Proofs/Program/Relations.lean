import AccessControl.Proofs.Program.Faults

/-! # What a program can touch

A program that makes only certain calls keeps what each of these keeps, under whatever conditions.
And where none of these calls can tell two stores apart, neither can the program, nor can anybody
who sees its result and its time.
-/
namespace AccessControl.Program

variable {α β : Type} {made : StoreCall → Prop} {k : Conditions} {ctx : Context} {w : World}
  {c : StoreCall} {p : Program α}

inductive Makes (made : StoreCall → Prop) : Program α → Prop
  | done (r : Result α) : Makes made (.done r)
  | call {c : StoreCall} {next : Result c.Reply → Program α} (hmade : made c)
      (hnext : ∀ r, Makes made (next r)) :
    Makes made (.call c next)

theorem Makes.bind {f : α → Program β} (h : p.Makes made) (hf : ∀ a, (f a).Makes made) :
    (p >>= f).Makes made := by
  induction h with
  | done r =>
    cases r with
    | ok a => exact hf a
    | error e => exact .done _
  | call hmade _ ih => exact .call hmade ih

theorem Makes.ask (hmade : made c) : (ask c).Makes made := .call hmade .done

theorem Makes.mono {made' : StoreCall → Prop} (h : p.Makes made) (hmono : ∀ c, made c → made' c) :
    p.Makes made' := by
  induction h with
  | done r => exact .done r
  | call hmade _ ih => exact .call (hmono _ hmade) ih

theorem Strict.makes (h : p.Strict made) : p.Makes made := by
  induction h with
  | done r => exact .done r
  | call hmade _ _ ih => exact .call hmade ih

theorem make_keeps {P : Stores → Prop} (hstep : ∀ {s}, P s → P (s.after c)) (hP : P w.stores) :
    P (make k ctx c w).2.stores := by
  rcases make_cases k ctx c w with ⟨hstores, -⟩ | ⟨reply, st, hserve, hstores, -⟩
  · rwa [hstores]
  · have hafter : w.stores.after c = st := by rw [Stores.after, hserve]
    rw [hstores, ← hafter]
    exact hstep hP

theorem Makes.perform_keeps {P : Stores → Prop} (h : p.Makes made)
    (hstep : ∀ {s c}, made c → P s → P (s.after c)) (hP : P w.stores) :
    P (p.perform k ctx w).2.stores := by
  induction h generalizing w with
  | done r => exact hP
  | @call c next hmade _ ih =>
    have hmake : P (make k ctx c w).2.stores := make_keeps (hstep hmade) hP
    simp only [perform]
    generalize make k ctx c w = out at hmake
    obtain ⟨_ | r, w'⟩ := out
    · exact hmake
    · exact ih r hmake

theorem Makes.perform_stores (h : p.Makes fun c => c.isQuery = true) (k : Conditions)
    (ctx : Context) (w : World) :
    (p.perform k ctx w).2.stores = w.stores :=
  h.perform_keeps (P := fun st => st = w.stores)
    (fun hc hsame => (Stores.after_query hc).trans hsame) rfl

/-- Stores that reply alike are told apart neither by the answer to a call nor by its time, and both
serve it or neither. -/
theorem make_related (k : Conditions) (ctx : Context) {st : Stores}
    (hreply : st.reply c = w.stores.reply c) :
    ∃ answer t n,
      (make k ctx c w = (answer, ⟨w.stores, t, n⟩) ∧
        make k ctx c { w with stores := st } = (answer, ⟨st, t, n⟩)) ∨
      (make k ctx c w = (answer, ⟨w.stores.after c, t, n⟩) ∧
        make k ctx c { w with stores := st } = (answer, ⟨st.after c, t, n⟩)) := by
  cases ho : k.obstacle ctx w.calls w.now c with
  | some o =>
    obtain ⟨t, n, hmake⟩ := exists_make_of_obstacle ho
    exact ⟨o.answer, t, n, .inl ⟨hmake w.stores, hmake st⟩⟩
  | none =>
    refine ⟨_, _, _, .inr ⟨make_of_no_obstacle ho, ?_⟩⟩
    rw [← hreply]
    exact make_of_no_obstacle (w := { w with stores := st }) ho

/-- Stores that none of the calls tells apart are not told apart by the program. -/
theorem Makes.perform_related {R : Stores → Stores → Prop} (h : p.Makes made)
    (hstep : ∀ {s s' c}, made c → R s s' → s'.reply c = s.reply c ∧ R (s.after c) (s'.after c))
    {st : Stores} (hR : R w.stores st) :
    (p.perform k ctx { w with stores := st }).1 = (p.perform k ctx w).1 ∧
      R (p.perform k ctx w).2.stores (p.perform k ctx { w with stores := st }).2.stores := by
  induction h generalizing w st with
  | done r => exact ⟨rfl, hR⟩
  | @call c next hmade _ ih =>
    obtain ⟨hreply, hafter⟩ := hstep hmade hR
    obtain ⟨answer, t, n, ⟨hw, hst⟩ | ⟨hw, hst⟩⟩ := make_related k ctx hreply
    · simp only [perform, hw, hst]
      cases answer with
      | none => exact ⟨rfl, hR⟩
      | some r => exact ih r (w := ⟨w.stores, t, n⟩) hR
    · simp only [perform, hw, hst]
      cases answer with
      | none => exact ⟨rfl, hafter⟩
      | some r => exact ih r (w := ⟨w.stores.after c, t, n⟩) hafter

end AccessControl.Program
