import Groundwork.Launch.Child
import Groundwork.Proofs.Descriptor.Table

/-!
# The standard streams of a child

A child copies its three ends to the places 0, 1 and 2 one after the other, so an end that stands in an
earlier place is lost before it is copied. `Carries` is the invariant of a child's steps: what is still
to be copied leads from the table that it has to the one with which the program starts. From the
entries of that table (`redirectAll_spec`) it is read off when all three ends arrive, and pipes that are
made one after the other in the lowest free descriptors are always such that they do
(`MakesPipes.lateEnds`).
-/

namespace Groundwork

namespace Launch

def Pipes.descriptor (p : Pipes) : Stream → PipeSide → ℕ
  | .stdin, .reader => p.stdin.1
  | .stdin, .writer => p.stdin.2
  | .stdout, .reader => p.stdout.1
  | .stdout, .writer => p.stdout.2
  | .stderr, .reader => p.stderr.1
  | .stderr, .writer => p.stderr.2

/-- No end of the child is in a place that is filled before it is copied. -/
def Pipes.LateEnds (p : Pipes) : Prop := p.stdout.2 ≠ 0 ∧ p.stderr.2 ≠ 0 ∧ p.stderr.2 ≠ 1

/-- The ends of the three pipes, which are numbered by `k`, are at the descriptors of `p` and nowhere else,
all to be closed on exec. -/
structure HoldsPipes (t : Table) (p : Pipes) (k : Stream → ℕ) : Prop where
  injective : k.Injective
  get : ∀ stream side, t.get (p.descriptor stream side) = some ⟨.pipe ⟨k stream, side⟩, true⟩
  only : ∀ stream side d e, t.get d = some e → e.file = .pipe ⟨k stream, side⟩ → d = p.descriptor stream side

/-- Descriptors 0, 1 and 2 are open on the child's ends. -/
def Wired (t : Table) (k : Stream → ℕ) : Prop :=
  (t.get 0).map Entry.file = some (.pipe ⟨k .stdin, .reader⟩) ∧
  (t.get 1).map Entry.file = some (.pipe ⟨k .stdout, .writer⟩) ∧
  (t.get 2).map Entry.file = some (.pipe ⟨k .stderr, .writer⟩)

namespace Child

def redirectAll : Table → ℕ → List ℕ → Option Table
  | t, _, [] => some t
  | t, target, d :: ds => (redirect? t target d).bind fun t => redirectAll t (target + 1) ds

def Steps (runnable : Command → Bool) (c c' : Child) : Prop := c.advance runnable = some c'

def Goes (runnable : Command → Bool) : Child → Child → Prop := Relation.ReflTransGen (Steps runnable)

/-- From here the child comes to start its program with the table `r`, if at all. -/
def Carries (r : Option Table) (c : Child) : Prop :=
  match c.phase with
  | .redirecting target pending => redirectAll c.table target pending = r
  | .restoring => r = some c.table
  | .executing => r = some c.table
  | .running => ∃ t, r = some t ∧ c.table = t.exec
  | .exited _ => True

variable {runnable : Command → Bool} {c c' : Child} {r : Option Table} {t t' : Table} {target d : ℕ} {e : Entry}

/-! ### The steps of a child -/

theorem Carries.advance (h : c.Carries r) (hstep : c.advance runnable = some c') : c'.Carries r := by
  unfold Child.advance at hstep
  unfold Carries at h
  split at hstep
  · rename_i hphase
    rw [hphase] at h
    cases hstep
    exact h.symm
  · rename_i target d pending hphase
    rw [hphase] at h
    split at hstep
    · rename_i t ht
      cases hstep
      simpa [Carries, redirectAll, ht] using h
    · cases hstep
      trivial
  · rename_i hphase
    rw [hphase] at h
    cases hstep
    exact h
  · rename_i hphase
    rw [hphase] at h
    split at hstep
    · cases hstep
      exact ⟨_, h, rfl⟩
    · cases hstep
      trivial
  · cases hstep
  · cases hstep

theorem Carries.goes (h : c.Carries r) (hgoes : Goes runnable c c') : c'.Carries r := by
  induction hgoes with
  | refl => exact h
  | tail _ hstep ih => exact ih.advance hstep

theorem carries_begin (command : Command) (t : Table) (s : Signals) (p : Pipes) :
    (begin command t s p).Carries (redirectAll t 0 p.childEnds) := rfl

theorem exists_running (s : Signals) (command : Command) (hrun : runnable command = true) (ds : List ℕ)
    (h : redirectAll t target ds = some t') :
    ∃ c, Goes runnable ⟨command, t, s, .redirecting target ds⟩ c ∧ c.phase = .running := by
  induction ds generalizing t target with
  | nil =>
    have hend : Steps runnable ⟨command, t, s, .redirecting target []⟩ ⟨command, t, s, .restoring⟩ := rfl
    have hsignals : Steps runnable ⟨command, t, s, .restoring⟩ ⟨command, t, s.restored, .executing⟩ := rfl
    have hexec : Steps runnable ⟨command, t, s.restored, .executing⟩ ⟨command, t.exec, s.restored, .running⟩ :=
      if_pos hrun
    exact ⟨_, ((Relation.ReflTransGen.single hend).tail hsignals).tail hexec, rfl⟩
  | cons d ds ih =>
    obtain ⟨u, hu, h⟩ := Option.bind_eq_some_iff.1 h
    obtain ⟨c, hgoes, hphase⟩ := ih h
    refine ⟨c, .head ?_ hgoes, hphase⟩
    simp [Steps, Child.advance, hu]

/-! ### One copy -/

theorem redirect?_eq_some (h : redirect? t target d = some t') :
    ∃ e, t.get d = some e ∧
      ∀ i, t'.get i = if i = target then some { e with closeOnExec := false } else t.get i := by
  unfold redirect? at h
  split at h
  · rename_i heq
    obtain ⟨e, he, rfl⟩ := Table.setCloseOnExec?_eq_some h
    exact ⟨e, he, fun i => by rw [heq]; rfl⟩
  · rename_i hne
    obtain ⟨e, he, -, rfl⟩ := Table.dup2?_eq_some h hne
    exact ⟨e, he, fun i => rfl⟩

theorem exists_redirect? (he : t.get d = some e) (hlt : target < t.limit) :
    ∃ t', redirect? t target d = some t' ∧ t'.limit = t.limit := by
  unfold redirect?
  split
  · exact ⟨t.set d (some { e with closeOnExec := false }), by rw [Table.setCloseOnExec?, he, Option.map_some], rfl⟩
  · rename_i hne
    refine ⟨t.set target (some { e with closeOnExec := false }), ?_, rfl⟩
    simp [Table.dup2?, he, not_le.2 hlt, hne]

theorem exists_redirectAll {ds : List ℕ} (hopen : ∀ d ∈ ds, t.get d ≠ none) (hlt : target + ds.length ≤ t.limit) :
    ∃ t', redirectAll t target ds = some t' := by
  induction ds generalizing t target with
  | nil => exact ⟨t, rfl⟩
  | cons d ds ih =>
    rw [List.length_cons] at hlt
    obtain ⟨e, he⟩ := Option.ne_none_iff_exists'.1 (hopen d List.mem_cons_self)
    obtain ⟨u, hu, hlimit⟩ := exists_redirect? he (show target < t.limit by omega)
    obtain ⟨e', -, hget⟩ := redirect?_eq_some hu
    have hopen' : ∀ d' ∈ ds, u.get d' ≠ none := by
      intro d' hd'
      rw [hget]
      split
      · exact Option.some_ne_none _
      · exact hopen d' (List.mem_cons_of_mem _ hd')
    obtain ⟨t', ht'⟩ := ih hopen' (show target + 1 + ds.length ≤ u.limit by omega)
    exact ⟨t', by rw [redirectAll, hu]; exact ht'⟩

end Child

namespace HoldsPipes

variable {t t' : Table} {p : Pipes} {k : Stream → ℕ} (h : HoldsPipes t p k)
include h

theorem childEnds_open : ∀ d ∈ p.childEnds, t.get d ≠ none := by
  intro d hd
  simp only [Pipes.childEnds, List.mem_cons, List.not_mem_nil, or_false] at hd
  rcases hd with rfl | rfl | rfl
  · exact (h.get .stdin .reader).symm ▸ Option.some_ne_none _
  · exact (h.get .stdout .writer).symm ▸ Option.some_ne_none _
  · exact (h.get .stderr .writer).symm ▸ Option.some_ne_none _

theorem get_first {t₁ : Table} (h₁ : Child.redirect? t 0 p.stdin.1 = some t₁) (i : ℕ) :
    t₁.get i = if i = 0 then some ⟨.pipe ⟨k .stdin, .reader⟩, false⟩ else t.get i := by
  have hin : t.get p.stdin.1 = some ⟨.pipe ⟨k .stdin, .reader⟩, true⟩ := h.get .stdin .reader
  obtain ⟨e, he, hget⟩ := Child.redirect?_eq_some h₁
  rw [hin] at he
  cases he
  exact hget i

theorem file_second {t₁ : Table} (h₁ : Child.redirect? t 0 p.stdin.1 = some t₁) {e : Entry}
    (he : t₁.get p.stdout.2 = some e) :
    e.file = .pipe ⟨k .stdin, .reader⟩ ∧ p.stdout.2 = 0 ∨ e.file = .pipe ⟨k .stdout, .writer⟩ ∧ p.stdout.2 ≠ 0 := by
  rw [h.get_first h₁] at he
  split at he
  · rename_i h0
    cases he
    exact .inl ⟨rfl, h0⟩
  · rename_i h0
    have hout : t.get p.stdout.2 = some ⟨.pipe ⟨k .stdout, .writer⟩, true⟩ := h.get .stdout .writer
    rw [hout] at he
    cases he
    exact .inr ⟨rfl, h0⟩

/-- An end of the third pipe in place 0 or 1 is overwritten before it is copied. -/
theorem file_third {t₁ t₂ : Table} (h₁ : Child.redirect? t 0 p.stdin.1 = some t₁)
    (h₂ : Child.redirect? t₁ 1 p.stdout.2 = some t₂) {e : Entry} (he : t₂.get p.stderr.2 = some e) :
    (∃ a, e.file = .pipe a ∧ a ≠ ⟨k .stderr, .writer⟩) ∧ (p.stderr.2 = 0 ∨ p.stderr.2 = 1) ∨
      e.file = .pipe ⟨k .stderr, .writer⟩ ∧ p.stderr.2 ≠ 0 ∧ p.stderr.2 ≠ 1 := by
  have hne : k .stdout ≠ k .stderr := fun heq => Stream.noConfusion (h.injective heq)
  obtain ⟨e₁, he₁, hget⟩ := Child.redirect?_eq_some h₂
  rw [hget] at he
  split at he
  · rename_i h1
    cases he
    rcases h.file_second h₁ he₁ with ⟨hf, -⟩ | ⟨hf, -⟩
    · exact .inl ⟨⟨_, hf, by simp⟩, .inr h1⟩
    · exact .inl ⟨⟨_, hf, by simp [hne]⟩, .inr h1⟩
  · rename_i h1
    rw [h.get_first h₁] at he
    split at he
    · rename_i h0
      cases he
      exact .inl ⟨⟨_, rfl, by simp⟩, .inl h0⟩
    · rename_i h0
      have herr : t.get p.stderr.2 = some ⟨.pipe ⟨k .stderr, .writer⟩, true⟩ := h.get .stderr .writer
      rw [herr] at he
      cases he
      exact .inr ⟨rfl, h0, h1⟩

theorem redirectAll_spec (hr : Child.redirectAll t 0 p.childEnds = some t') :
    t'.get 0 = some ⟨.pipe ⟨k .stdin, .reader⟩, false⟩ ∧
    (∃ a, t'.get 1 = some ⟨.pipe a, false⟩ ∧ (a = ⟨k .stdout, .writer⟩ ↔ p.stdout.2 ≠ 0)) ∧
    (∃ a, t'.get 2 = some ⟨.pipe a, false⟩ ∧ (a = ⟨k .stderr, .writer⟩ ↔ p.stderr.2 ≠ 0 ∧ p.stderr.2 ≠ 1)) ∧
    ∀ i, 2 < i → t'.get i = t.get i := by
  simp only [Pipes.childEnds, Child.redirectAll, Option.bind_eq_some_iff, Option.some.injEq] at hr
  obtain ⟨t₁, h₁, t₂, h₂, t₃, h₃, rfl⟩ := hr
  obtain ⟨e₁, he₁, hget₂⟩ := Child.redirect?_eq_some h₂
  obtain ⟨e₂, he₂, hget₃⟩ := Child.redirect?_eq_some h₃
  have hget : ∀ i, t₃.get i = if i = 2 then some { e₂ with closeOnExec := false }
      else if i = 1 then some { e₁ with closeOnExec := false }
      else if i = 0 then some ⟨.pipe ⟨k .stdin, .reader⟩, false⟩ else t.get i := by
    intro i
    rw [hget₃, hget₂, h.get_first h₁]
  refine ⟨hget 0, ?_, ?_, fun i hi => ?_⟩
  · have h1 : t₃.get 1 = some { e₁ with closeOnExec := false } := hget 1
    rcases h.file_second h₁ he₁ with ⟨hf, h0⟩ | ⟨hf, h0⟩
    · exact ⟨_, by rw [h1, hf], by simp [h0]⟩
    · exact ⟨_, by rw [h1, hf], by simp [h0]⟩
  · have h2 : t₃.get 2 = some { e₂ with closeOnExec := false } := hget 2
    rcases h.file_third h₁ h₂ he₂ with ⟨⟨a, hf, ha⟩, h0⟩ | ⟨hf, h0⟩
    · refine ⟨a, by rw [h2, hf], iff_of_false ha ?_⟩
      rintro ⟨h0', h1'⟩
      exact h0.elim h0' h1'
    · exact ⟨_, by rw [h2, hf], iff_of_true rfl h0⟩
  · rw [hget i, if_neg (by omega), if_neg (by omega), if_neg (by omega)]

theorem wired_exec_iff (hr : Child.redirectAll t 0 p.childEnds = some t') : Wired t'.exec k ↔ p.LateEnds := by
  obtain ⟨h0, ⟨a, h1, ha⟩, ⟨b, h2, hb⟩, -⟩ := h.redirectAll_spec hr
  unfold Wired Pipes.LateEnds
  rw [← ha, ← hb]
  simp [h0, h1, h2]

theorem get_exec_of_lt (hr : Child.redirectAll t 0 p.childEnds = some t') {d : ℕ} (hd : 2 < d) {e : Entry} :
    t'.exec.get d = some e ↔ t.get d = some e ∧ e.closeOnExec = false := by
  obtain ⟨-, -, -, hrest⟩ := h.redirectAll_spec hr
  rw [Table.get_exec_eq_some_iff, hrest d hd]

theorem only_wired (hr : Child.redirectAll t 0 p.childEnds = some t') (hwired : Wired t'.exec k) {d : ℕ} {e : Entry}
    {stream : Stream} {side : PipeSide} (he : t'.exec.get d = some e) (hf : e.file = .pipe ⟨k stream, side⟩) :
    (d, stream, side) ∈ [(0, .stdin, .reader), (1, .stdout, .writer), (2, .stderr, .writer)] := by
  rcases lt_or_ge 2 d with hd | hd
  · -- an end above them would be where the caller has it, and that entry is closed on exec
    obtain ⟨he, hopen⟩ := (h.get_exec_of_lt hr hd).1 he
    have hget := h.get stream side
    rw [← h.only stream side d e he hf, he] at hget
    cases hget
    cases hopen
  · have hat : ∀ {s : Stream} {sd : PipeSide}, (t'.exec.get d).map Entry.file = some (.pipe ⟨k s, sd⟩) →
        stream = s ∧ side = sd := by
      intro s sd hmap
      rw [he, Option.map_some, hf] at hmap
      simp only [Option.some.injEq, File.pipe.injEq, PipeEnd.mk.injEq] at hmap
      exact ⟨h.injective hmap.1, hmap.2⟩
    interval_cases d
    · obtain ⟨rfl, rfl⟩ := hat hwired.1
      simp
    · obtain ⟨rfl, rfl⟩ := hat hwired.2.1
      simp
    · obtain ⟨rfl, rfl⟩ := hat hwired.2.2
      simp

end HoldsPipes

/-! ### Pipes in the lowest free descriptors -/

/-- The pipes of a launch that no other descriptor activity comes between. -/
def MakesPipes (t t' : Table) (p : Pipes) (k : Stream → ℕ) : Prop :=
  ∃ t₁ t₂, t.pipe? (k .stdin) = some (p.stdin, t₁) ∧ t₁.pipe? (k .stdout) = some (p.stdout, t₂) ∧
    t₂.pipe? (k .stderr) = some (p.stderr, t')

namespace MakesPipes

variable {t t' : Table} {p : Pipes} {k : Stream → ℕ} (h : MakesPipes t t' p k)
include h

theorem exists_made : ∃ t₁ t₂, t.PipeMade (k .stdin) p.stdin.1 p.stdin.2 t₁ ∧
    t₁.PipeMade (k .stdout) p.stdout.1 p.stdout.2 t₂ ∧ t₂.PipeMade (k .stderr) p.stderr.1 p.stderr.2 t' := by
  obtain ⟨t₁, t₂, h₁, h₂, h₃⟩ := h
  exact ⟨t₁, t₂, Table.pipe?_spec h₁, Table.pipe?_spec h₂, Table.pipe?_spec h₃⟩

theorem increasing : p.stdin.1 < p.stdin.2 ∧ p.stdin.2 < p.stdout.1 ∧ p.stdout.1 < p.stdout.2 ∧
    p.stdout.2 < p.stderr.1 ∧ p.stderr.1 < p.stderr.2 := by
  obtain ⟨t₁, t₂, h₁, h₂, h₃⟩ := h.exists_made
  exact ⟨h₁.lt, h₁.full.le_of_free h₂.free, h₂.lt, h₂.full.le_of_free h₃.free, h₃.lt⟩

theorem lateEnds : p.LateEnds := by
  have := h.increasing
  unfold Pipes.LateEnds
  omega

theorem holdsPipes (hk : k.Injective)
    (hnew : ∀ d e stream side, t.get d = some e → e.file ≠ .pipe ⟨k stream, side⟩) : HoldsPipes t' p k := by
  obtain ⟨t₁, t₂, h₁, h₂, h₃⟩ := h.exists_made
  refine ⟨hk, ?_, ?_⟩
  · intro stream side
    cases stream with
    | stdin =>
      cases side with
      | reader => exact h₃.kept _ _ (h₂.kept _ _ h₁.reader)
      | writer => exact h₃.kept _ _ (h₂.kept _ _ h₁.writer)
    | stdout =>
      cases side with
      | reader => exact h₃.kept _ _ h₂.reader
      | writer => exact h₃.kept _ _ h₂.writer
    | stderr =>
      cases side with
      | reader => exact h₃.reader
      | writer => exact h₃.writer
  · intro stream side d e he hf
    have hsame : ∀ {s : Stream} {sd : PipeSide}, e.file = .pipe ⟨k s, sd⟩ → s = stream ∧ sd = side := by
      intro s sd hs
      rw [hs] at hf
      simp only [File.pipe.injEq, PipeEnd.mk.injEq] at hf
      exact ⟨hk hf.1, hf.2⟩
    rcases h₃.made d e he with ⟨rfl, hs⟩ | ⟨rfl, hs⟩ | he
    · obtain ⟨rfl, rfl⟩ := hsame hs; rfl
    · obtain ⟨rfl, rfl⟩ := hsame hs; rfl
    rcases h₂.made d e he with ⟨rfl, hs⟩ | ⟨rfl, hs⟩ | he
    · obtain ⟨rfl, rfl⟩ := hsame hs; rfl
    · obtain ⟨rfl, rfl⟩ := hsame hs; rfl
    rcases h₁.made d e he with ⟨rfl, hs⟩ | ⟨rfl, hs⟩ | he
    · obtain ⟨rfl, rfl⟩ := hsame hs; rfl
    · obtain ⟨rfl, rfl⟩ := hsame hs; rfl
    · exact absurd hf (hnew d e stream side he)

end MakesPipes

/-- The three streams of a child's program are its ends of the pipes exactly if no end is in a place that
is filled before it is copied. Then there is no other end in the program, and what is not closed on exec
above the streams is as it was. Pipes that are made one after the other are always such. -/
theorem wired_iff_lateEnds (runnable : Command → Bool) (command : Command) (s : Signals) :
    (∀ t p k, HoldsPipes t p k →
      (runnable command = true → 2 < t.limit →
        ∃ c, Child.Goes runnable (.begin command t s p) c ∧ c.phase = .running) ∧
      ∀ c, Child.Goes runnable (.begin command t s p) c → c.phase = .running →
        (Wired c.table k ↔ p.stdout.2 ≠ 0 ∧ p.stderr.2 ≠ 0 ∧ p.stderr.2 ≠ 1) ∧
        (Wired c.table k →
          (∀ d e stream side, c.table.get d = some e → e.file = .pipe ⟨k stream, side⟩ →
            (d, stream, side) ∈ [(0, .stdin, .reader), (1, .stdout, .writer), (2, .stderr, .writer)]) ∧
          ∀ d e, 2 < d → t.get d = some e → e.closeOnExec = false → c.table.get d = some e)) ∧
    ∀ t t' p k, MakesPipes t t' p k →
      (p.stdout.2 ≠ 0 ∧ p.stderr.2 ≠ 0 ∧ p.stderr.2 ≠ 1) ∧
      (k.Injective → (∀ d e stream side, t.get d = some e → e.file ≠ .pipe ⟨k stream, side⟩) →
        HoldsPipes t' p k) := by
  constructor
  · intro t p k h
    constructor
    · intro hrun hlimit
      obtain ⟨t', ht'⟩ := Child.exists_redirectAll h.childEnds_open (show 0 + 3 ≤ t.limit from hlimit)
      exact Child.exists_running s command hrun p.childEnds ht'
    · intro c hgoes hphase
      have hcarries := (Child.carries_begin command t s p).goes hgoes
      unfold Child.Carries at hcarries
      rw [hphase] at hcarries
      obtain ⟨t', hr, htable⟩ := hcarries
      rw [htable]
      refine ⟨h.wired_exec_iff hr, fun hwired => ⟨?_, ?_⟩⟩
      · intro d e stream side he hf
        exact h.only_wired hr hwired he hf
      · intro d e hd he hopen
        exact (h.get_exec_of_lt hr hd).2 ⟨he, hopen⟩
  · intro t t' p k h
    exact ⟨h.lateEnds, h.holdsPipes⟩

theorem wired_iff_lateEnds_gaps :
    let t : Table := ⟨16, fun d => if d = 0 ∨ d = 2 then some ⟨.other d, false⟩ else none⟩
    let p : Pipes := ⟨(1, 3), (4, 5), (6, 7)⟩
    let k : Stream → ℕ := fun stream => match stream with | .stdin => 0 | .stdout => 1 | .stderr => 2
    ∃ t', MakesPipes t t' p k ∧ HoldsPipes t' p k ∧
      ∃ c, Child.Goes (fun _ => true) (.begin ⟨[], []⟩ t' ⟨[], []⟩ p) c ∧ c.phase = .running ∧ Wired c.table k := by
  intro t p k
  obtain ⟨hwired, hmakes⟩ := wired_iff_lateEnds (fun _ => true) ⟨[], []⟩ ⟨[], []⟩
  have hpipes : ∃ t', MakesPipes t t' p k ∧ 2 < t'.limit := ⟨_, ⟨_, _, rfl, rfl, rfl⟩, by decide⟩
  obtain ⟨t', hpipes, hlimit⟩ := hpipes
  obtain ⟨hlate, hholds⟩ := hmakes t t' p k hpipes
  have hk : k.Injective := by
    intro a b hab
    cases a <;> cases b <;> first | rfl | cases hab
  have hnew : ∀ d e stream side, t.get d = some e → e.file ≠ .pipe ⟨k stream, side⟩ := by
    intro d e stream side he
    obtain ⟨-, he⟩ := Option.ite_none_right_eq_some.1 he
    cases he
    exact File.noConfusion
  obtain ⟨hstart, hrun⟩ := hwired t' p k (hholds hk hnew)
  obtain ⟨c, hgoes, hphase⟩ := hstart rfl hlimit
  exact ⟨t', hpipes, hholds hk hnew, c, hgoes, hphase, (hrun c hgoes hphase).1.2 hlate⟩

end Launch

end Groundwork
