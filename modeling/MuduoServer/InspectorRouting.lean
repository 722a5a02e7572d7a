import MuduoServer.Inspector

/-!
How the paths of `Inspector` and its list of commands go together. A request is answered by
the registration that came last for its first two pieces, with the other pieces as
arguments. A line of the list names the path of its command when the names have no tab and no
end of line in them, nor the help text an end of line.
-/
namespace MuduoServer.Inspector

open Block NestedMap Segments

/-- A call of `add`. -/
structure Registration (σ : Type) where
  module : Bytes
  command : Bytes
  cb : Option (Callback σ)
  help : Bytes

variable {σ : Type}

/-- The inspector after the calls of `add` in their order. -/
def registered (regs : List (Registration σ)) : Inspector σ :=
  regs.foldl (fun ins r => ins.add r.module r.command r.cb r.help) new

/-- The last registration for a pair of names. -/
def last (regs : List (Registration σ)) (module command : Bytes) : Option (Registration σ) :=
  regs.reverse.find? fun r => r.module = module ∧ r.command = command

/-- The part of a line of the list that stands before the tab. -/
def linePath (line : Bytes) : Bytes := line.takeWhile (· ≠ tab)

def Registration.path (r : Registration σ) : Bytes := slash :: r.module ++ slash :: r.command

/-- Names that are not empty and have no slash in them, with a callback; and nothing in names and
help text that a line of the list cannot hold. -/
structure Registration.Listed (r : Registration σ) : Prop where
  module_ne : r.module ≠ []
  command_ne : r.command ≠ []
  module_slash : slash ∉ r.module
  command_slash : slash ∉ r.command
  cb : r.cb ≠ none
  module_line : tab ∉ r.module ∧ newline ∉ r.module
  command_line : tab ∉ r.command ∧ newline ∉ r.command
  help_line : newline ∉ r.help

/-- The answer of a callback. -/
def answer (cb : Callback σ) (method : HttpRequest.Method) (args : ArgList)
    (resp : HttpResponse) (world : σ) : HttpResponse × σ :=
  (ok resp (cb method args world).1, (cb method args world).2)

section Last

variable {regs : List (Registration σ)} {r : Registration σ} {module command : Bytes}

theorem last_append (regs : List (Registration σ)) (r : Registration σ) (module command : Bytes) :
    last (regs ++ [r]) module command =
      if r.module = module ∧ r.command = command then some r else last regs module command := by
  rw [last, List.reverse_append, List.reverse_singleton, List.singleton_append, List.find?_cons]
  by_cases h : r.module = module ∧ r.command = command
  · simp [h]
  · simp [h, last]

theorem last_eq_some (h : last regs module command = some r) :
    r ∈ regs ∧ r.module = module ∧ r.command = command := by
  have hmem := List.mem_of_find?_eq_some h
  have hnames := List.find?_some h
  exact ⟨List.mem_reverse.mp hmem, of_decide_eq_true hnames⟩

theorem registered_append (regs : List (Registration σ)) (r : Registration σ) :
    registered (regs ++ [r]) = (registered regs).add r.module r.command r.cb r.help := by
  rw [registered, List.foldl_append]
  rfl

/-- Both maps keep what the last call has assigned. -/
theorem lookup_registered (regs : List (Registration σ)) (module command : Bytes) :
    lookup (registered regs).commands_ module command = (last regs module command).map (·.cb) ∧
      lookup (registered regs).helps_ module command =
        (last regs module command).map (·.help) := by
  induction regs using List.reverseRecOn with
  | nil => exact ⟨lookup_empty module command, lookup_empty module command⟩
  | append_singleton regs r ih =>
    rw [registered_append, add, lookup_assign, lookup_assign, ih.1, ih.2, last_append]
    by_cases h : r.module = module ∧ r.command = command <;> simp [h]

end Last

section Requests

variable {regs : List (Registration σ)} {r : Registration σ} {cb : Callback σ}
  {req : HttpRequest} {module command : Bytes} {args : ArgList}

theorem onRequest_list (ins : Inspector σ) (h : req.path_ = bytes "/") (resp : HttpResponse)
    (world : σ) : ins.onRequest req resp world = (ok resp ins.listing, world) := by
  rw [onRequest, if_pos h]

theorem onRequest_command (hsplit : split req.path_ = module :: command :: args)
    (hlast : last regs module command = some r) (hcb : r.cb = some cb) (resp : HttpResponse)
    (world : σ) :
    (registered regs).onRequest req resp world = answer cb req.method_ args resp world := by
  have hpath : req.path_ ≠ bytes "/" := by
    intro hroot
    rw [split_eq_pieces, hroot] at hsplit
    exact absurd hsplit (by simp [show pieces slash (bytes "/") = [] from rfl])
  have hlookup := (lookup_registered regs module command).1
  rw [hlast, Option.map_some, hcb, lookup] at hlookup
  obtain ⟨commList, hcommList, hfound⟩ := Option.bind_eq_some_iff.mp hlookup
  rw [onRequest, if_neg hpath, hsplit]
  simp only [hcommList, hfound]
  rfl

theorem onRequest_notFound (hpath : req.path_ ≠ bytes "/")
    (hlast : ∀ module command args, split req.path_ = module :: command :: args →
      last regs module command = none) (resp : HttpResponse) (world : σ) :
    (registered regs).onRequest req resp world = (notFound resp, world) := by
  rw [onRequest, if_neg hpath]
  split
  · rename_i module command args hsplit
    have hlookup := (lookup_registered regs module command).1
    rw [hlast module command args hsplit, Option.map_none, lookup] at hlookup
    split
    · rename_i commList hcommList
      rw [hcommList, Option.bind_some] at hlookup
      rw [hlookup]
    · rfl
  · rfl

/-- The pieces of the path of a registration, with anything behind it that begins a new piece. -/
theorem split_path (hmodule : r.module ≠ [] ∧ slash ∉ r.module)
    (hcommand : r.command ≠ [] ∧ slash ∉ r.command) {suffix : Bytes}
    (hsuffix : suffix = [] ∨ suffix.head? = some slash) :
    split (r.path ++ suffix) = r.module :: r.command :: split suffix := by
  rw [split_eq_pieces, split_eq_pieces, Registration.path, List.append_assoc, List.cons_append,
    pieces_sep, pieces_front hmodule.1 hmodule.2 (Or.inr rfl), List.cons_append, pieces_sep,
    pieces_front hcommand.1 hcommand.2 hsuffix]

/-- Arguments behind the path of a registration reach its callback as they are. -/
theorem onRequest_args (h : r.Listed) (hlast : last regs r.module r.command = some r)
    (hcb : r.cb = some cb) (hargs : ∀ arg ∈ args, arg ≠ []) (hslash : ∀ arg ∈ args, slash ∉ arg)
    (hpath : req.path_ = r.path ++ args.flatMap (slash :: ·)) (resp : HttpResponse) (world : σ) :
    (registered regs).onRequest req resp world = answer cb req.method_ args resp world := by
  have hsuffix : args.flatMap (slash :: ·) = [] ∨
      (args.flatMap (slash :: ·)).head? = some slash := by
    cases args with
    | nil => exact Or.inl rfl
    | cons => exact Or.inr rfl
  refine onRequest_command ?_ hlast hcb resp world
  rw [hpath, split_path ⟨h.module_ne, h.module_slash⟩ ⟨h.command_ne, h.command_slash⟩ hsuffix,
    split_eq_pieces, pieces_flatMap hargs hslash]

end Requests

section Lines

variable {regs : List (Registration σ)} {r : Registration σ} {line : Bytes}

theorem helpLine_eq (r : Registration σ) :
    helpLine r.module r.command r.help = r.path ++ tab :: r.help := by
  simp [helpLine, Registration.path, show bytes "/" = [slash] from rfl,
    show bytes "\t" = [tab] from rfl]

/-- What is listed is what came last for its pair of names. -/
theorem mem_helps {entry : Bytes × Bytes × Bytes} :
    entry ∈ entries (registered regs).helps_ ↔
      ∃ r, last regs r.module r.command = some r ∧ entry = (r.module, r.command, r.help) := by
  obtain ⟨module, command, help⟩ := entry
  rw [mem_entries, (lookup_registered regs module command).2, Option.map_eq_some_iff]
  constructor
  · rintro ⟨r, hlast, rfl⟩
    obtain ⟨-, rfl, rfl⟩ := last_eq_some hlast
    exact ⟨r, hlast, rfl⟩
  · rintro ⟨r, hlast, heq⟩
    obtain ⟨rfl, rfl, rfl⟩ : module = r.module ∧ command = r.command ∧ help = r.help := by
      simpa using heq
    exact ⟨r, hlast, rfl⟩

theorem Registration.Listed.newline_notMem (h : r.Listed) :
    newline ∉ helpLine r.module r.command r.help := by
  have hslash : newline ≠ slash := by decide
  have htab : newline ≠ tab := by decide
  simp [helpLine_eq, Registration.path, hslash, htab, h.module_line.2, h.command_line.2,
    h.help_line]

theorem Registration.Listed.linePath_helpLine (h : r.Listed) :
    linePath (helpLine r.module r.command r.help) = r.path := by
  have hslash : slash ≠ tab := by decide
  have hpath : ∀ c ∈ r.path, decide (c ≠ tab) = true := by
    intro c hc
    refine decide_eq_true ?_
    rintro rfl
    simp [Registration.path, h.module_line.1, h.command_line.1, hslash.symm] at hc
  rw [helpLine_eq, linePath, List.takeWhile_append_of_pos hpath]
  simp

/-- The lines of the list are those of the last registrations. -/
theorem mem_lines (h : ∀ r ∈ regs, r.Listed) :
    line ∈ ended newline (registered regs).listing ↔
      ∃ r, last regs r.module r.command = some r ∧
        line = helpLine r.module r.command r.help := by
  have hlisting : (registered regs).listing =
      ((entries (registered regs).helps_).map fun e => helpLine e.1 e.2.1 e.2.2).flatMap
        (· ++ [newline]) := by
    rw [listing, List.flatMap_map]
    rfl
  rw [hlisting, ended_flatMap, List.mem_map]
  · constructor
    · rintro ⟨entry, hentry, rfl⟩
      obtain ⟨r, hlast, rfl⟩ := mem_helps.mp hentry
      exact ⟨r, hlast, rfl⟩
    · rintro ⟨r, hlast, rfl⟩
      exact ⟨_, mem_helps.mpr ⟨r, hlast, rfl⟩, rfl⟩
  · intro line hline
    obtain ⟨entry, hentry, rfl⟩ := List.mem_map.mp hline
    obtain ⟨r, hlast, rfl⟩ := mem_helps.mp hentry
    exact (h r (last_eq_some hlast).1).newline_notMem

end Lines

/-- `split` finds the maximal segments without a slash; a line of the list names the path that
calls the last callback of its pair, with the further segments as arguments; and a path other
than `/` that names no pair is not found. -/
theorem routes (regs : List (Registration σ)) (h : ∀ r ∈ regs, r.Listed) :
    (∀ path, ∃ spans, Spans slash path 0 spans ∧
      split path = spans.map fun s => slice path s.1 s.2) ∧
    (∀ req resp world, req.path_ = bytes "/" →
      ∀ line ∈ ended newline ((registered regs).onRequest req resp world).1.body_,
      ∃ r cb, linePath line = r.path ∧ last regs r.module r.command = some r ∧ r.cb = some cb ∧
        ∀ suffix, suffix = [] ∨ suffix.head? = some slash →
        ∀ req' resp' world', req'.path_ = linePath line ++ suffix →
          (registered regs).onRequest req' resp' world' =
            answer cb req'.method_ (split suffix) resp' world') ∧
    (∀ req resp world, req.path_ ≠ bytes "/" →
      (∀ module command args, split req.path_ = module :: command :: args →
        last regs module command = none) →
      (registered regs).onRequest req resp world = (notFound resp, world)) := by
  refine ⟨fun path => ?_, fun req resp world hroot line hline => ?_,
    fun req resp world hpath hnone => onRequest_notFound hpath hnone resp world⟩
  · rw [split_eq_pieces]
    exact exists_spans path
  · rw [onRequest_list _ hroot] at hline
    obtain ⟨r, hlast, rfl⟩ := (mem_lines h).mp hline
    have hlisted := h r (last_eq_some hlast).1
    obtain ⟨cb, hcb⟩ := Option.ne_none_iff_exists'.mp hlisted.cb
    have hpathLine := hlisted.linePath_helpLine
    refine ⟨r, cb, hpathLine, hlast, hcb, fun suffix hsuffix req' resp' world' hpath => ?_⟩
    rw [hpathLine] at hpath
    refine onRequest_command ?_ hlast hcb resp' world'
    rw [hpath, split_path ⟨hlisted.module_ne, hlisted.module_slash⟩
      ⟨hlisted.command_ne, hlisted.command_slash⟩ hsuffix]

/-- A callback that keeps its arguments. -/
def keepArgs : Callback (List ArgList) := fun _ args calls => (bytes "1", calls ++ [args])

def pidCommand : Registration (List ArgList) :=
  { module := bytes "proc", command := bytes "pid", cb := some keepArgs, help := bytes "print pid" }

theorem routes_pid :
    (registered [pidCommand]).onRequest
        { HttpRequest.new with method_ := .kGet, path_ := bytes "/proc/pid//x/" }
        (HttpResponse.new false) [] =
      answer keepArgs .kGet [bytes "x"] (HttpResponse.new false) [] := by
  have hlisted : ∀ r ∈ [pidCommand], r.Listed := by
    intro r hr
    obtain rfl := List.mem_singleton.mp hr
    exact ⟨by decide, by decide, by decide, by decide, Option.some_ne_none _, by decide,
      by decide, by decide⟩
  obtain ⟨-, hlines, -⟩ := routes [pidCommand] hlisted
  have hline : bytes "/proc/pid\tprint pid" ∈ ended newline (registered [pidCommand]).listing := by
    decide
  obtain ⟨r, cb, -, hlast, hcb, hcall⟩ :=
    hlines { HttpRequest.new with path_ := bytes "/" } (HttpResponse.new false) [] rfl _ hline
  obtain rfl := List.mem_singleton.mp (last_eq_some hlast).1
  obtain rfl := Option.some_inj.mp hcb
  have hrest : split (bytes "//x/") = [bytes "x"] := by
    rw [split_eq_pieces]
    decide
  have hanswer := hcall (bytes "//x/") (Or.inr rfl)
    { HttpRequest.new with method_ := .kGet, path_ := bytes "/proc/pid//x/" }
    (HttpResponse.new false) [] rfl
  rwa [hrest] at hanswer

/-- A command with nothing but names and a help text. -/
def plain (module command help : String) : Registration Unit :=
  { module := bytes module, command := bytes command
    cb := some fun _ _ world => ([], world), help := bytes help }

/-- A tab in a name and an end of line in a name or in the help text make a line that names
another path, and `/` is found although it names no pair. -/
theorem lines_not_routed :
    (∀ r ∈ [plain "a\tb" "c" "", plain "a" "b\tc" "", plain "a\nb" "c" "", plain "a" "b\nc" "",
        plain "a" "b" "x\ny"],
      ∃ line ∈ ended newline (registered [r]).listing,
        ((registered [r]).onRequest { HttpRequest.new with path_ := linePath line }
          (HttpResponse.new false) ()).1.statusCode_ = 404) ∧
    split (bytes "/") = [] ∧
      ((registered [plain "a" "b" ""]).onRequest { HttpRequest.new with path_ := bytes "/" }
        (HttpResponse.new false) ()).1.statusCode_ = 200 := by
  simp only [onRequest, split_eq_pieces]
  refine ⟨?_, by decide, by decide⟩
  decide

end MuduoServer.Inspector
