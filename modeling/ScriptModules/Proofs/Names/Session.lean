import ScriptModules.Proofs.Names.Registry

/-!
# A registry in use

A registry is called again and again: directory names are reserved, and names are claimed for files
and for parts of files, each time with other paths that are taken. Three facts about one call carry
over to any row of them:

* a claim is answered (`grant_answer`), with a path that collides with nothing;
* the stem of that path is in use from then on, and so is a reserved name;
* nothing that is in use gets free again (`keeps_serve`).

Main statement: `session_unused`.
-/

namespace ScriptModules

/-- What a name is wanted for. -/
inductive Wish where
  /-- A file. -/
  | file (path : String)
  /-- The part `index` of the file `key`. -/
  | part (key : String) (index : Int)

/-- Candidates for the name can be told apart by their stems. -/
def Wish.Proper : Wish → Prop
  | .file path => EndsInName path
  | .part key _ => HasExtension key

instance : DecidablePred Wish.Proper
  | .file path => inferInstanceAs (Decidable (EndsInName path))
  | .part key _ => inferInstanceAs (Decidable (HasExtension key))

/-- A call of a registry. -/
inductive Call where
  /-- Reserves directory names. -/
  | seed (segments : List String)
  /-- Asks for a name that is not among the paths `taken`. -/
  | claim (wish : Wish) (taken : List String)

/-- The directory names that the call reserves. -/
def Call.segments : Call → List String
  | .seed segments => segments
  | .claim _ _ => []

/-- What the call asks for is proper. -/
def Call.Proper : Call → Prop
  | .seed _ => True
  | .claim wish _ => wish.Proper

instance : DecidablePred Call.Proper
  | .seed _ => inferInstanceAs (Decidable True)
  | .claim wish _ => inferInstanceAs (Decidable wish.Proper)

namespace Registry

variable {r r' : Registry} {taken : List String} {wish : Wish} {calls : List Call} {path : String}

/-- Answers a claim. -/
def grant (r : Registry) (taken : List String) : Wish → Registry × Except PathFault String
  | .file path => (r.claim path taken).value
  | .part key index => (r.claimPart key index taken).value

/-- The registry after a call. -/
def serve (r : Registry) : Call → Registry
  | .seed segments => r.seed segments
  | .claim wish taken => (r.grant taken wish).1

/-- The registry after a row of calls. -/
def after (r : Registry) (calls : List Call) : Registry := calls.foldl serve r

/-- The answers to the claims in a row of calls. -/
def answers (r : Registry) : List Call → List (Except PathFault String)
  | [] => []
  | .seed segments :: calls => (r.seed segments).answers calls
  | .claim wish taken :: calls =>
    (r.grant taken wish).2 :: (r.grant taken wish).1.answers calls

/-! ## One call -/

/-- A path that was given out collided with nothing. -/
theorem answer_of_grant (h : r.grant taken wish = (r', .ok path)) : r.Answer taken r' path := by
  cases wish with
  | file p => exact (claim_cases h).1
  | part key index => exact (claimPart_cases h).1

/-- A proper claim is answered. -/
theorem grant_answer (r : Registry) (taken : List String) (h : wish.Proper) :
    ∃ r' path, r.grant taken wish = (r', .ok path) := by
  cases wish with
  | file p => exact exists_claim r taken h
  | part key index => exact exists_claimPart r taken h index

/-- A claim frees no name, even if it is not answered. -/
theorem keeps_grant (r : Registry) (taken : List String) (wish : Wish) :
    Keeps r (r.grant taken wish).1 := by
  generalize hgrant : r.grant taken wish = result
  obtain ⟨r', fault | path⟩ := result
  · cases wish with
    | file p =>
      simp only [grant, claim] at hgrant
      split at hgrant
      · split at hgrant
        · cases hgrant
          exact ⟨rfl, fun _ hn => hn⟩
        · cases hgrant
      · cases hgrant
    | part key index =>
      simp only [grant, claimPart] at hgrant
      split at hgrant
      · cases hgrant
        exact .refl r
      · cases hgrant
  · exact (answer_of_grant hgrant).keeps

theorem keeps_serve (r : Registry) (call : Call) : Keeps r (r.serve call) := by
  cases call with
  | seed segments => exact keeps_seed r segments
  | claim wish taken => exact keeps_grant r taken wish

/-! ## A row of calls -/

theorem after_cons (r : Registry) (call : Call) (calls : List Call) :
    r.after (call :: calls) = (r.serve call).after calls := rfl

theorem keeps_after (r : Registry) (calls : List Call) : Keeps r (r.after calls) := by
  induction calls generalizing r with
  | nil => exact .refl r
  | cons call calls ih => exact (keeps_serve r call).trans (ih (r.serve call))

/-- A name that was reserved is in use. -/
theorem lowercase_mem_after {call : Call} {segment : String} (hcall : call ∈ calls)
    (hsegment : segment ∈ call.segments) : lowercase segment ∈ (r.after calls).names := by
  induction calls generalizing r with
  | nil => cases hcall
  | cons first calls ih =>
    rw [after_cons]
    rcases List.mem_cons.mp hcall with rfl | hcall
    · cases call with
      | seed segments => exact (keeps_after _ calls).names _ (mem_names_seed r hsegment)
      | claim wish taken => cases hsegment
    · exact ih hcall

/-- The stem of a path that was given out is in use. -/
theorem stemKey_mem_after (h : .ok path ∈ r.answers calls) :
    stemKey path ∈ (r.after calls).names := by
  induction calls generalizing r with
  | nil => cases h
  | cons call calls ih =>
    rw [after_cons]
    cases call with
    | seed segments => exact ih h
    | claim wish taken =>
      rcases List.mem_cons.mp h with heq | h
      · have hanswer : r.Answer taken (r.grant taken wish).1 path :=
          answer_of_grant (Prod.ext rfl heq.symm)
        exact (keeps_after _ calls).names _ ((hanswer.names _).mpr (.inr rfl))
      · exact ih h

/-- Every claim in a row of calls is answered, with a path that is not taken and whose stem, in
lower case, is neither a name that was reserved before, be it in lower case or not, nor the stem of
a path that was given out before. -/
theorem session_unused (r : Registry) (henabled : r.enabled = true) (calls : List Call)
    (hcalls : ∀ call ∈ calls, call.Proper) (before later : List Call) (wish : Wish)
    (taken : List String) (hsplit : calls = before ++ .claim wish taken :: later) :
    ∃ path, ((r.after before).grant taken wish).2 = .ok path ∧ path ∉ taken ∧
      (∀ call ∈ before, ∀ segment ∈ call.segments,
        stemKey path ≠ segment ∧ stemKey path ≠ lowercase segment) ∧
      ∀ p, .ok p ∈ r.answers before → stemKey path ≠ stemKey p := by
  have hproper : wish.Proper := hcalls (.claim wish taken) (by simp [hsplit])
  obtain ⟨r', path, hgrant⟩ := grant_answer (r.after before) taken hproper
  have hfree := collides_eq_false_iff.mp (answer_of_grant hgrant).free
  have hunused : stemKey path ∉ (r.after before).names :=
    hfree.2 ((keeps_after r before).enabled.trans henabled)
  refine ⟨path, by rw [hgrant], hfree.1, fun call hcall segment hsegment => ?_, fun p hp heq => ?_⟩
  · have hreserved : lowercase segment ∈ (r.after before).names :=
      lowercase_mem_after hcall hsegment
    refine ⟨fun heq => ?_, fun heq => ?_⟩
    · -- A stem in lower case is its own lower case.
      rw [← heq, stemKey, lowercase_lowercase] at hreserved
      exact hunused hreserved
    · rw [heq] at hunused
      exact hunused hreserved
  · rw [heq] at hunused
    exact hunused (stemKey_mem_after hp)

/-- Calls for names that differ in case only, that have no extension, and that have dots in them. -/
def crowded : List Call :=
  [.seed ["Lib", "Σ"], .claim (.file "x/LIB") [], .claim (.file "lib") ["lib001"],
   .claim (.part "a.σ.js" (-1)) [], .claim (.file "b\\σ.js") []]

theorem session_unused_crowded : (Registry.new true).enabled = true ∧
    (∀ call ∈ crowded ++ [.claim (.file ".env") [".env"]], call.Proper) ∧
    ((Registry.new true).answers crowded).map Except.toOption =
      [some "x/LIB000", some "lib002", some "a.σ.-1.js", some "b\\σ.js"] ∧
    ∃ path, (((Registry.new true).after crowded).grant [".env"] (.file ".env")).2 = .ok path ∧
      path ∉ [".env"] ∧
      (∀ call ∈ crowded, ∀ segment ∈ call.segments,
        stemKey path ≠ segment ∧ stemKey path ≠ lowercase segment) ∧
      ∀ p, .ok p ∈ (Registry.new true).answers crowded → stemKey path ≠ stemKey p := by
  have hproper : ∀ call ∈ crowded ++ [.claim (.file ".env") [".env"]], call.Proper := by
    decide +kernel
  exact ⟨rfl, hproper, by decide +kernel,
    session_unused (.new true) rfl _ hproper crowded [] (.file ".env") [".env"] rfl⟩

end Registry

end ScriptModules
