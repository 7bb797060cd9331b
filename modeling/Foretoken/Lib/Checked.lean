import Mathlib.Tactic

/-!
Computations that may fail.

A checked computation is an `Except`; a proof takes a successful one apart at its binds, its guards
and the values it requires, and never unfolds the monad. `foldlM_eq_ok_iff` does so for a loop, and
the rules about `Passes` split its checks.
-/

namespace Foretoken

open List

universe u v

section Bind

variable {ε : Type u} {α β : Type v}

/-- A successful sequence succeeds at each step. -/
lemma ok_of_bind {x : Except ε α} {f : α → Except ε β} {b : β} (h : x >>= f = .ok b) :
    ∃ a, x = .ok a ∧ f a = .ok b := by
  cases x with
  | error => cases h
  | ok a => exact ⟨a, rfl, h⟩

lemma bind_eq_ok_iff {x : Except ε α} {f : α → Except ε β} {b : β} :
    x >>= f = .ok b ↔ ∃ a, x = .ok a ∧ f a = .ok b := by
  refine ⟨ok_of_bind, ?_⟩
  rintro ⟨a, rfl, hb⟩
  exact hb

/-- A guarded computation succeeds when its guard lets it. -/
lemma guard_eq_ok_iff {p : Prop} [Decidable p] {e : ε} {x : Except ε α} {a : α} :
    (if p then .error e else x) = .ok a ↔ ¬ p ∧ x = .ok a := by
  by_cases hp : p <;> simp [hp]

/-- A value that must be there. -/
def orError (o : Option α) (e : ε) : Except ε α :=
  match o with
  | none => .error e
  | some a => .ok a

lemma orError_eq_ok_iff {o : Option α} {e : ε} {a : α} : orError o e = .ok a ↔ o = some a := by
  cases o <;> simp [orError]

lemma mapError_eq_ok_iff {ε' : Type*} {x : Except ε α} {f : ε → ε'} {a : α} :
    x.mapError f = .ok a ↔ x = .ok a := by
  cases x <;> simp [Except.mapError]

/-- The elements that a check keeps, unless it fails on one of them. -/
def filterOk {γ : Type*} (keep : γ → Except ε Bool) : List γ → Except ε (List γ)
  | [] => .ok []
  | a :: l =>
    match keep a with
    | .error e => .error e
    | .ok kept =>
      match filterOk keep l with
      | .error e => .error e
      | .ok rest => .ok (if kept then a :: rest else rest)

lemma mem_filterOk {γ : Type*} {keep : γ → Except ε Bool} {l l' : List γ}
    (h : filterOk keep l = .ok l') {a : γ} : a ∈ l' ↔ a ∈ l ∧ keep a = .ok true := by
  induction l generalizing l' with
  | nil =>
    cases h
    simp
  | cons b l ih =>
    rw [filterOk] at h
    cases hb : keep b with
    | error => simp [hb] at h
    | ok kept =>
      cases hl : filterOk keep l with
      | error => simp [hb, hl] at h
      | ok =>
        simp only [hb, hl, Except.ok.injEq] at h
        subst h
        rw [mem_cons, or_and_right, ← ih hl]
        cases kept with
        | true =>
          have hself : a = b ∧ keep a = .ok true ↔ a = b :=
            and_iff_left_of_imp fun hab => hab ▸ hb
          rw [if_pos rfl, mem_cons, hself]
        | false =>
          have hnot : ¬ (a = b ∧ keep a = .ok true) := by
            rintro ⟨rfl, hkeep⟩
            simp [hb] at hkeep
          rw [if_neg Bool.false_ne_true, or_iff_right hnot]

end Bind

/-! ### Loops -/

section Loop

variable {ε : Type u} {σ : Type v} {α : Type*}

/-- Every element passes its check in the state that those before it lead to. -/
def Passes (check : σ → α → Prop) (next : σ → α → σ) : σ → List α → Prop
  | _, [] => True
  | s, x :: l => check s x ∧ Passes check next (next s x) l

variable {check : σ → α → Prop} {next : σ → α → σ} {s : σ} {l : List α}

lemma foldlM_preserves {step : σ → α → Except ε σ} {I : σ → Prop} {s' : σ}
    (h : ∀ s x s', x ∈ l → I s → step s x = .ok s' → I s') (hs : I s)
    (hok : l.foldlM step s = .ok s') : I s' := by
  induction l generalizing s with
  | nil => exact Except.ok.inj hok ▸ hs
  | cons x l ih =>
    rw [foldlM_cons, bind_eq_ok_iff] at hok
    obtain ⟨next, hnext, hok⟩ := hok
    exact ih (fun s x s' hx => h s x s' (mem_cons_of_mem _ hx))
      (h s x next mem_cons_self hs hnext) hok

theorem foldlM_eq_ok_iff {step : σ → α → Except ε σ}
    (h : ∀ s x s', step s x = .ok s' ↔ check s x ∧ next s x = s') {s' : σ} :
    l.foldlM step s = .ok s' ↔ Passes check next s l ∧ l.foldl next s = s' := by
  induction l generalizing s with
  | nil =>
    rw [Passes, true_and]
    exact ⟨Except.ok.inj, congrArg Except.ok⟩
  | cons x l ih =>
    rw [foldlM_cons, Passes, and_assoc]
    constructor
    · intro hok
      obtain ⟨t, hx, hl⟩ := ok_of_bind hok
      obtain ⟨hcheck, rfl⟩ := (h s x t).mp hx
      exact ⟨hcheck, ih.mp hl⟩
    · rintro ⟨hcheck, hl⟩
      rw [(h s x _).mpr ⟨hcheck, rfl⟩]
      exact ih.mpr hl

variable {κ : Type*}

theorem passes_and {check' : σ → α → Prop} :
    Passes (fun s x => check s x ∧ check' s x) next s l ↔
      Passes check next s l ∧ Passes check' next s l := by
  induction l generalizing s with
  | nil => simp [Passes]
  | cons x l ih => rw [Passes, Passes, Passes, ih, and_and_and_comm]

theorem passes_iff_forall {good : α → Prop} :
    Passes (fun _ x => good x) next s l ↔ ∀ x ∈ l, good x := by
  induction l generalizing s with
  | nil => simp [Passes]
  | cons x l ih => rw [Passes, ih, forall_mem_cons]

theorem passes_iff_fresh {ks : α → List κ} {has : σ → κ → Prop}
    (hnext : ∀ s x k, has (next s x) k ↔ k ∈ ks x ∨ has s k) :
    Passes (fun s x => (ks x).Nodup ∧ ∀ k ∈ ks x, ¬ has s k) next s l ↔
      (l.flatMap ks).Nodup ∧ ∀ k ∈ l.flatMap ks, ¬ has s k := by
  induction l generalizing s with
  | nil => simp [Passes]
  | cons x l ih =>
    rw [Passes, ih, flatMap_cons, nodup_append, forall_mem_append]
    have hrest : (∀ k ∈ l.flatMap ks, ¬ has (next s x) k) ↔
        (∀ a ∈ ks x, ∀ b ∈ l.flatMap ks, a ≠ b) ∧ ∀ k ∈ l.flatMap ks, ¬ has s k := by
      simp only [hnext, not_or]
      constructor
      · intro h
        exact ⟨fun a ha b hb hab => (h b hb).1 (hab ▸ ha), fun k hk => (h k hk).2⟩
      · intro h k hk
        exact ⟨fun hx => h.1 k hx k hk rfl, h.2 k hk⟩
    tauto

/-- The rule for a single key of each element. -/
theorem passes_iff_distinct {key : α → κ} {has : σ → κ → Prop}
    (hnext : ∀ s x k, has (next s x) k ↔ k = key x ∨ has s k) :
    Passes (fun s x => ¬ has s (key x)) next s l ↔
      (l.map key).Nodup ∧ ∀ k ∈ l.map key, ¬ has s k := by
  have hkeys : ∀ s x k, has (next s x) k ↔ k ∈ [key x] ∨ has s k := fun s x k =>
    (hnext s x k).trans (or_congr_left mem_singleton.symm)
  have hfresh := passes_iff_fresh hkeys (s := s) (l := l)
  rw [← map_eq_flatMap] at hfresh
  simpa only [nodup_singleton, true_and, forall_mem_singleton] using hfresh

variable {τ : Type*} [DecidableEq κ] (good : α → Prop) (key : α → κ) (signature : α → τ)
  (read : σ → κ → Option τ)

theorem passes_iff_agree
    (hcheck : ∀ s x, check s x ↔ good x ∧ ∀ v, read s (key x) = some v → v = signature x)
    (hnext : ∀ s x k, check s x →
      read (next s x) k = if k = key x then some (signature x) else read s k) :
    Passes check next s l ↔
      (∀ x ∈ l, good x) ∧ (∀ x ∈ l, ∀ y ∈ l, key x = key y → signature x = signature y) ∧
        ∀ x ∈ l, ∀ v, read s (key x) = some v → v = signature x := by
  induction l generalizing s with
  | nil => simp [Passes]
  | cons x l ih =>
    rw [Passes, ih]
    constructor
    · rintro ⟨hx, hgood, hagree, hread⟩
      -- the later elements meet the signature of `x` under its key
      have hlater : ∀ y ∈ l, key y = key x → signature x = signature y := fun y hy hkey =>
        hread y hy (signature x) (by rw [hnext s x _ hx, if_pos hkey])
      refine ⟨forall_mem_cons.mpr ⟨((hcheck s x).mp hx).1, hgood⟩, ?_, ?_⟩
      · intro y hy z hz hkey
        rcases mem_cons.mp hy with hyx | hyl <;> rcases mem_cons.mp hz with hzx | hzl
        · rw [hyx, hzx]
        · rw [hyx] at hkey ⊢
          exact hlater z hzl hkey.symm
        · rw [hzx] at hkey ⊢
          exact (hlater y hyl hkey).symm
        · exact hagree y hyl z hzl hkey
      · refine forall_mem_cons.mpr ⟨((hcheck s x).mp hx).2, fun y hy v hv => ?_⟩
        by_cases hkey : key y = key x
        · rw [← hlater y hy hkey]
          exact ((hcheck s x).mp hx).2 v (hkey ▸ hv)
        · exact hread y hy v (by rw [hnext s x _ hx, if_neg hkey, hv])
    · rintro ⟨hgood, hagree, hread⟩
      have hx : check s x := (hcheck s x).mpr
        ⟨hgood x mem_cons_self, hread x mem_cons_self⟩
      refine ⟨hx, fun y hy => hgood y (mem_cons_of_mem _ hy), fun y hy z hz =>
        hagree y (mem_cons_of_mem _ hy) z (mem_cons_of_mem _ hz), fun y hy v hv => ?_⟩
      rw [hnext s x _ hx] at hv
      split_ifs at hv with hkey
      · cases hv
        exact hagree x mem_cons_self y (mem_cons_of_mem _ hy) hkey.symm
      · exact hread y (mem_cons_of_mem _ hy) v hv

lemma read_foldl_of_notMem (hnext : ∀ s x k, check s x →
      read (next s x) k = if k = key x then some (signature x) else read s k)
    (h : Passes check next s l) {k : κ} (hk : k ∉ l.map key) :
    read (l.foldl next s) k = read s k := by
  induction l generalizing s with
  | nil => rfl
  | cons x l ih =>
    rw [map_cons, mem_cons, not_or] at hk
    rw [foldl_cons, ih h.2 hk.2, hnext s x k h.1, if_neg hk.1]

lemma read_foldl_of_agree (hnext : ∀ s x k, check s x →
      read (next s x) k = if k = key x then some (signature x) else read s k)
    (h : Passes check next s l)
    (hagree : ∀ x ∈ l, ∀ y ∈ l, key x = key y → signature x = signature y) {x : α} (hx : x ∈ l) :
    read (l.foldl next s) (key x) = some (signature x) := by
  induction l generalizing s x with
  | nil => cases hx
  | cons y l ih =>
    rw [foldl_cons]
    by_cases hmem : key x ∈ l.map key
    · obtain ⟨z, hz, hkey⟩ := mem_map.mp hmem
      rw [← hkey, hagree x hx z (mem_cons_of_mem _ hz) hkey.symm]
      exact ih h.2 (fun a ha b hb =>
        hagree a (mem_cons_of_mem _ ha) b (mem_cons_of_mem _ hb)) hz
    · rw [read_foldl_of_notMem key signature read hnext h.2 hmem, hnext s y _ h.1]
      rcases mem_cons.mp hx with rfl | hx
      · rw [if_pos rfl]
      · exact absurd (mem_map_of_mem hx) hmem

end Loop

end Foretoken
