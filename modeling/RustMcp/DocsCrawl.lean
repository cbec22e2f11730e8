import RustMcp.RustdocSync
import RustMcp.Worklist

/-! The docs sync: for every candidate version, the pages of docs.rs that its first
pages link to, each stored in the index as it is fetched. -/
namespace RustMcp.DocsCrawl
open Str
open Worklist (Frontier Leads)
open RustdocSync (RustdocSyncCandidateRow atVersion)

/-! The text of a page. -/

/-- A text before and after the first place where the pattern is found in its lower-case form. -/
def splitOnceLower (pat : Text) : Text → Option (Text × Text)
  | [] => none
  | c::cs =>
      if startsWith pat (toAsciiLowercase (c::cs)) then some ([],(c::cs).drop pat.length)
      else (splitOnceLower pat cs).map fun parts => (c::parts.1,parts.2)

def maxTitleChars : Nat := 300
def maxExtractedDocsContentChars : Nat := 1000000

def extractTitle (html : Text) : Option Text := do
  let (_,after) ← splitOnceLower "<title>".toList html
  let (title,_) ← splitOnceLower "</title>".toList after
  let title := trim title
  if title.isEmpty then none else some (title.take maxTitleChars)

def stripTags : Bool → Text → Text
  | _,[] => []
  | inTag,c::cs =>
      if c = '<' then stripTags true cs
      else if c = '>' then stripTags false cs
      else if inTag then stripTags true cs
      else c::stripTags false cs

def replace (pat with_ text : Text) : Text := join with_ (split pat text)

def splitWhitespace (text : Text) : List Text := (text.splitOnP isWhiteSpace).filter fun piece => !piece.isEmpty

def stripHtml (html : Text) : Text :=
  let output := replace "&gt;".toList ">".toList (replace "&lt;".toList "<".toList
    (replace "&amp;".toList "&".toList (replace "&nbsp;".toList " ".toList (stripTags false html))))
  (join " ".toList (splitWhitespace output)).take maxExtractedDocsContentChars

/-! Links. -/

def byteLength (text : Text) : Nat := (text.map Char.utf8Size).sum

theorem splitOnceShorter {pat : Text} (some_ : pat ≠ []) {text before after : Text}
    (found : splitOnceLower pat text = some (before,after)) : after.length < text.length := by
  induction text generalizing before with
  | nil => cases found
  | cons c cs ih =>
    rw [splitOnceLower] at found
    split at found
    · cases found
      have long := List.length_pos_iff.mpr some_
      simp only [List.length_drop,List.length_cons]
      omega
    · obtain ⟨parts,later,same⟩ := Option.map_eq_some_iff.mp found
      cases same
      have shorter := ih later
      simp only [List.length_cons]
      omega

/-- The quoted values, from a position of the page on. After a character that is not a quote the
position moves by one byte; where that is inside the character, looking on from there panics (`none`). -/
def extractHrefValues (html : Text) : Option (List Text) :=
  if byteLength html ≤ 6 then some []
  else
    match _found : splitOnceLower "href=".toList html with
    | none => some []
    | some (_,[]) => some []
    | some (_,quote::rest) =>
        if quote ≠ '"' ∧ quote ≠ '\'' then
          if quote.utf8Size = 1 then extractHrefValues rest
          else if byteLength (quote::rest) ≤ 7 then some []
          else none
        else
          let value := trim (rest.takeWhile (· ≠ quote))
          (extractHrefValues ((rest.dropWhile (· ≠ quote)).drop 1)).map fun out => if value.isEmpty then out else value::out
termination_by html.length
decreasing_by
  · have shorter := splitOnceShorter (by decide) _found
    simp only [List.length_cons] at shorter
    omega
  · have shorter := splitOnceShorter (by decide) _found
    have less := (List.dropWhile_suffix (p := fun c => decide (c ≠ quote)) (l := rest)).length_le
    simp only [List.length_cons,List.length_drop] at shorter ⊢
    omega

def pushSegment (parts : List Text) (segment : Text) : List Text :=
  if segment = [] ∨ segment = ".".toList then parts
  else if segment = "..".toList then parts.dropLast
  else parts ++ [segment]

def normalizeJoinedPath (path : Text) : Option Text :=
  let raw := trim ((path.takeWhile (· ≠ '#')).takeWhile (· ≠ '?'))
  if raw.isEmpty then none
  else
    let normalized := join "/".toList ((split "/".toList (trimStartMatches "/".toList raw)).foldl pushSegment [])
    if normalized.isEmpty then none
    else some (if raw.getLast? = some '/' then normalized ++ "/".toList else normalized)

def unresolvable : List Text := ["#".toList,"javascript:".toList,"mailto:".toList,"tel:".toList,"//".toList]

/-- The path of a page up to its last `/`. -/
def baseDir (currentPath : Text) : Text := currentPath.rdropWhile (· ≠ '/')

def candidatePath (docsBaseUrl currentPath raw : Text) : Option Text :=
  if startsWith "http://".toList raw || startsWith "https://".toList raw then
    (stripPrefix (trimEndMatches "/".toList docsBaseUrl) raw).map (trimStartMatches "/".toList)
  else if startsWith "/".toList raw then some (trimStartMatches "/".toList raw)
  else some (baseDir currentPath ++ raw)

def resolveDocsHref (docsBaseUrl currentPath href cratePrefix : Text) : Option Text := do
  let raw := trim href
  if raw.isEmpty || unresolvable.any fun lead => startsWith lead raw then none
  else
    let normalized ← normalizeJoinedPath (← candidatePath docsBaseUrl currentPath raw)
    if !startsWith cratePrefix normalized then none
    else if !(normalized.getLast? = some '/' || ".html".toList.isSuffixOf normalized) then none
    else some normalized

/-- `none` where the links cannot be read. -/
def discoverDocsPaths (docsBaseUrl currentPath html cratePrefix : Text) : Option (List Text) :=
  (extractHrefValues html).map fun hrefs =>
    Ranking.sortBy id (hrefs.filterMap fun href => resolveDocsHref docsBaseUrl currentPath href cratePrefix).dedup

/-- An unquoted value that starts with a longer character is looked into. -/
example : extractHrefValues "<a href=élan.html>A</a>".toList = none := by decide +kernel

/-! The crawl of a version. -/

structure Response where
  success : Bool
  status : Text
  text : Except Text Text

structure Docs where
  docsRsBaseUrl : Text
  /-- a request to docs.rs, by URL -/
  get : Text → Except Text Response
  /-- the number of rows that were written -/
  upsertDocsPageIfChanged : Nat → Text → Option Text → Text → Text → Except Text Nat

structure DocsRefreshOutcome where
  versionsProcessed : Nat
  pagesWritten : Nat
  touchedVersions : List Text
  errors : List Text

def docsDiscoveryMaxPages : Nat := 64

section
variable (docs : Docs)

def Docs.baseUrl : Text := trimEndMatches "/".toList docs.docsRsBaseUrl

def Docs.url (path : Text) : Text := docs.baseUrl ++ "/".toList ++ trimStartMatches "/".toList path

def Docs.fetchPageHtml (path : Text) : Except Text Text :=
  match docs.get (docs.url path) with
  | .error e => .error ("docs fetch failed ".toList ++ docs.url path ++ ": ".toList ++ e)
  | .ok response =>
      if !response.success then .error ("docs fetch failed ".toList ++ docs.url path ++ ": status ".toList ++ response.status)
      else response.text.mapError fun e => "docs body read failed ".toList ++ docs.url path ++ ": ".toList ++ e

structure Crawl where
  frontier : Frontier Text
  /-- the paths that were requested, in order -/
  fetched : List Text
  writtenAny : Bool
  outcome : DocsRefreshOutcome

inductive Ending where
  | done
  | failed (error : Text)
  | panicked
  deriving DecidableEq

variable (candidate : RustdocSyncCandidateRow)

def cratePrefix : Text := candidate.crateName ++ "/".toList ++ candidate.version ++ "/".toList
def moduleRoot : Text := cratePrefix candidate ++ candidate.crateName ++ "/".toList
def moduleRootIndex : Text := moduleRoot candidate ++ "index.html".toList

def Crawl.start (outcome : DocsRefreshOutcome) : Crawl :=
  ⟨⟨[moduleRoot candidate,moduleRootIndex candidate],{moduleRoot candidate,moduleRootIndex candidate},∅⟩,[],false,outcome⟩

def Crawl.requested (c : Crawl) (path : Text) (queue : List Text) : Crawl :=
  {c with frontier := c.frontier.taken path queue, fetched := c.fetched ++ [path]}

def Crawl.missed (c : Crawl) (error : Text) : Crawl :=
  {c with outcome := {c.outcome with errors := c.outcome.errors ++ [error]}}

def Crawl.wrote (c : Crawl) (rowsAffected : Nat) : Crawl :=
  if rowsAffected > 0 then
    {c with writtenAny := true, outcome := {c.outcome with pagesWritten := c.outcome.pagesWritten + rowsAffected}}
  else c

def Crawl.discovered (c : Crawl) (paths : List Text) : Crawl :=
  {c with frontier := Frontier.offer docsDiscoveryMaxPages paths c.frontier}

def upsertFailure (path error : Text) : Text :=
  "failed to upsert docs page ".toList ++ path ++ " for ".toList ++ atVersion candidate ++ ": ".toList ++ error

def Docs.store (path html : Text) : Except Text Nat :=
  docs.upsertDocsPageIfChanged candidate.crateVersionId path (extractTitle html) (stripHtml html) (docs.url path)

/-- Runs until the queue is empty; an error of the database ends it. -/
def crawl : Nat → Crawl → Option (Crawl × Ending)
  | 0,_ => none
  | fuel+1,c =>
      match c.frontier.queue with
      | [] => some (c,.done)
      | path::queue =>
          if path ∈ c.frontier.seen then
            crawl fuel {c with frontier := {c.frontier with queue := queue, pending := c.frontier.pending.erase path}}
          else
            let c := c.requested path queue
            match docs.fetchPageHtml path with
            | .error e => crawl fuel (c.missed e)
            | .ok html =>
                match docs.store candidate path html with
                | .error e => some (c,.failed (upsertFailure candidate path e))
                | .ok rowsAffected =>
                    let c := c.wrote rowsAffected
                    if c.frontier.full docsDiscoveryMaxPages then crawl fuel c
                    else
                      match discoverDocsPaths docs.baseUrl path html (cratePrefix candidate) with
                      | none => some (c,.panicked)
                      | some paths => crawl fuel (c.discovered paths)

end

/-! The sync. -/

section
variable (docs : Docs) (fuel : Nat)

def Crawl.ended (c : Crawl) (candidate : RustdocSyncCandidateRow) : DocsRefreshOutcome :=
  {c.outcome with
    versionsProcessed := c.outcome.versionsProcessed + 1
    touchedVersions := if c.writtenAny then c.outcome.touchedVersions ++ [atVersion candidate] else c.outcome.touchedVersions}

def syncVersions : List RustdocSyncCandidateRow → DocsRefreshOutcome → Option (Except Ending DocsRefreshOutcome)
  | [],outcome => some (.ok outcome)
  | candidate::candidates,outcome =>
      match crawl docs candidate fuel (Crawl.start candidate outcome) with
      | some (c,.done) => syncVersions candidates (c.ended candidate)
      | some (_,ending) => some (.error ending)
      | none => none

/-- `rows` is what the index holds of crate versions, or its error. -/
def syncDocsPages (lower : Text → Text) (now : Nat) (rows : Except Text (List RustdocSync.CrateVersion)) (crateName : Option Text)
    (page perPage : Option Nat) : Option (Except Ending DocsRefreshOutcome) :=
  match crateName.mapM fun name => Utils.normalizeRequired name "crate_name".toList with
  | .error e => some (.error (.failed e))
  | .ok crateFilter =>
      match rows with
      | .error e => some (.error (.failed ("docs sync failed to load crate versions: ".toList ++ e)))
      | .ok rows =>
          let candidates := RustdocSync.fetchRustdocSyncCandidates lower now ⟨crateFilter,none,false,false,none⟩
            (Utils.syncPerPage perPage) ((Utils.syncPage page - 1) * Utils.syncPerPage perPage % 2 ^ 32) rows
          syncVersions docs fuel (candidates.map RustdocSync.CrateVersion.candidate) ⟨0,0,[],[]⟩

end

/-! A crawl, turn by turn. -/

section
variable (docs : Docs) (candidate : RustdocSyncCandidateRow)

/-- What a page links to under the prefix of the crate; a page that fails or cannot be read links to nothing. -/
def links (path : Text) : List Text :=
  match docs.fetchPageHtml path with
  | .error _ => []
  | .ok html => (discoverDocsPaths docs.baseUrl path html (cratePrefix candidate)).getD []

structure Bounded (c : Crawl) : Prop where
  sound : c.frontier.Sound docsDiscoveryMaxPages
  once : c.fetched.Nodup
  same : ∀ path, path ∈ c.fetched ↔ path ∈ c.frontier.seen
  inside : ∀ path, c.frontier.Known path → cratePrefix candidate <+: path

def starts : List Text := [moduleRoot candidate,moduleRootIndex candidate]

def Covers (c : Crawl) : Prop := c.frontier.Covers (links docs candidate) docsDiscoveryMaxPages (starts candidate)

variable {docs candidate} {c : Crawl} {path : Text} {queue : List Text}

theorem resolvedInside {base current href lead resolved : Text} (found : resolveDocsHref base current href lead = some resolved) :
    lead <+: resolved := by
  simp only [resolveDocsHref] at found
  split at found
  · cases found
  · obtain ⟨joined,_,rest⟩ := Option.bind_eq_some_iff.mp found
    obtain ⟨normalized,_,rest⟩ := Option.bind_eq_some_iff.mp rest
    split at rest
    · cases rest
    · rename_i opens
      split at rest
      · cases rest
      · cases rest
        rw [Bool.not_eq_true,Bool.not_eq_false'] at opens
        exact startsWithIff.mp opens

theorem discoveredInside {base html lead : Text} {paths : List Text} (found : discoverDocsPaths base path html lead = some paths)
    {target : Text} (mem : target ∈ paths) : lead <+: target := by
  obtain ⟨hrefs,_,rfl⟩ := Option.map_eq_some_iff.mp found
  obtain ⟨href,_,resolved⟩ := List.mem_filterMap.mp (List.mem_dedup.mp (Ranking.memSortBy.mp mem))
  exact resolvedInside resolved

theorem rootApart (candidate : RustdocSyncCandidateRow) : moduleRoot candidate ≠ moduleRootIndex candidate := by
  intro same
  have lengths := congrArg List.length same
  simp [moduleRootIndex] at lengths

theorem startInside {start : Text} (mem : start ∈ starts candidate) : cratePrefix candidate <+: start := by
  simp only [starts,List.mem_cons,List.not_mem_nil,or_false] at mem
  rcases mem with rfl | rfl
  · rw [moduleRoot,List.append_assoc]
    exact List.prefix_append _ _
  · rw [moduleRootIndex,moduleRoot,List.append_assoc,List.append_assoc]
    exact List.prefix_append _ _

theorem startKnown (outcome : DocsRefreshOutcome) (path : Text) :
    (Crawl.start candidate outcome).frontier.Known path ↔ path ∈ starts candidate := by
  simp [Crawl.start,Frontier.Known,starts]

theorem startBounded (outcome : DocsRefreshOutcome) : Bounded candidate (Crawl.start candidate outcome) := by
  have apart := rootApart candidate
  refine ⟨⟨?_,fun path => ?_,Finset.disjoint_empty_left _,?_⟩,List.nodup_nil,fun path => ?_,fun path known => ?_⟩
  · simp [Crawl.start,apart]
  · simp [Crawl.start]
  · simp [Crawl.start,docsDiscoveryMaxPages,Finset.card_pair apart]
  · simp [Crawl.start]
  · exact startInside ((startKnown outcome path).mp known)

theorem startCovers (outcome : DocsRefreshOutcome) : Covers docs candidate (Crawl.start candidate outcome) where
  sound := (startBounded outcome).sound
  rooted root mem := (startKnown outcome root).mpr mem
  reached path known := ⟨path,(startKnown outcome path).mp known,.refl⟩
  closed := Or.inr fun path mem => absurd mem (Finset.notMem_empty path)

theorem requestedBounded (bounded : Bounded candidate c) (head : c.frontier.queue = path::queue) :
    Bounded candidate (c.requested path queue) := by
  have unseen := (Frontier.headUnseen bounded.sound head).2
  refine ⟨Frontier.takenSound bounded.sound head,?_,fun other => ?_,fun other known => ?_⟩
  · refine List.nodup_append.mpr ⟨bounded.once,List.nodup_singleton path,fun other mem single here same => ?_⟩
    cases List.mem_singleton.mp here
    exact unseen ((bounded.same _).mp (same ▸ mem))
  · simp only [Crawl.requested,Frontier.taken,List.mem_append,List.mem_singleton,Finset.mem_insert,bounded.same other]
    exact or_comm
  · exact bounded.inside other ((Frontier.takenKnown bounded.sound head other).mp known)

theorem wroteFrontier (c : Crawl) (rows : Nat) : (c.wrote rows).frontier = c.frontier := by
  rw [Crawl.wrote]
  split <;> rfl

theorem wroteFetched (c : Crawl) (rows : Nat) : (c.wrote rows).fetched = c.fetched := by
  rw [Crawl.wrote]
  split <;> rfl

theorem wroteBounded (bounded : Bounded candidate c) (rows : Nat) : Bounded candidate (c.wrote rows) := by
  rw [Crawl.wrote]
  split <;> exact ⟨bounded.sound,bounded.once,bounded.same,bounded.inside⟩

theorem discoveredBounded (bounded : Bounded candidate c) {paths : List Text}
    (inside : ∀ target ∈ paths, cratePrefix candidate <+: target) : Bounded candidate (c.discovered paths) := by
  refine ⟨Frontier.offerSound paths bounded.sound,bounded.once,fun other => ?_,fun other known => ?_⟩
  · rw [Crawl.discovered,Frontier.offerSeen]
    exact bounded.same other
  · rcases Frontier.offerSource paths known with old | new
    · exact bounded.inside other old
    · exact inside other new

/-- How a crawl can end. -/
structure Finished (docs : Docs) (candidate : RustdocSyncCandidateRow) (c : Crawl) (ending : Ending) : Prop where
  bounded : Bounded candidate c
  reached : ∀ path ∈ c.fetched, ∃ root ∈ starts candidate, Leads (links docs candidate) root path
  done : ending = .done → c.frontier.queue = [] ∧ Covers docs candidate c
  served : ending ≠ .done → ∃ path ∈ c.fetched, ∃ html, docs.fetchPageHtml path = .ok html
  panicked : ending = .panicked → ∃ path ∈ c.fetched, ∃ html, docs.fetchPageHtml path = .ok html ∧ extractHrefValues html = none

theorem requestedReached (bounded : Bounded candidate c) (covers : Covers docs candidate c) (head : c.frontier.queue = path::queue)
    {other : Text} (mem : other ∈ (c.requested path queue).fetched) :
    ∃ root ∈ starts candidate, Leads (links docs candidate) root other := by
  rcases List.mem_append.mp mem with old | new
  · exact covers.reached other (Or.inl ((bounded.same other).mp old))
  · cases List.mem_singleton.mp new
    exact covers.reached path (Or.inr (Frontier.headUnseen bounded.sound head).1)

variable (docs) in
/-- Every turn takes a path that was not seen, so that the pages that may still be seen bound the turns. -/
theorem crawlEnds {fuel : Nat} (enough : docsDiscoveryMaxPages < fuel + c.frontier.seen.card) (bounded : Bounded candidate c)
    (covers : Covers docs candidate c) : ∃ final ending, crawl docs candidate fuel c = some (final,ending) ∧
      Finished docs candidate final ending := by
  induction fuel generalizing c with
  | zero =>
    have fits := bounded.sound.fits
    omega
  | succ fuel ih =>
    rw [crawl]
    split
    · rename_i empty
      exact ⟨c,.done,rfl,bounded,fun path mem => covers.reached path (Or.inl ((bounded.same path).mp mem)),
        fun _ => ⟨empty,covers⟩,fun other => absurd rfl other,fun same => absurd same (by decide)⟩
    · rename_i path queue head
      have unseen := (Frontier.headUnseen bounded.sound head).2
      have more : docsDiscoveryMaxPages < fuel + (c.requested path queue).frontier.seen.card := by
        simp only [Crawl.requested,Frontier.taken,Finset.card_insert_of_notMem unseen]
        omega
      have requested := requestedBounded bounded head
      have last : path ∈ (c.requested path queue).fetched := List.mem_append_right _ List.mem_cons_self
      rw [if_neg unseen]
      dsimp only
      split
      · rename_i e missed
        have none_ : links docs candidate path = [] := by rw [links,missed]
        exact ih more ⟨requested.sound,requested.once,requested.same,requested.inside⟩
          (Frontier.takenCovers covers head (Or.inr none_))
      · rename_i html page
        split
        · rename_i e _
          exact ⟨_,_,rfl,requested,fun other mem => requestedReached bounded covers head mem,fun same => absurd same (by simp),
            fun _ => ⟨path,last,html,page⟩,fun same => absurd same (by simp)⟩
        · rename_i rows _
          have wrote := wroteBounded requested rows
          have room : docsDiscoveryMaxPages < fuel + ((c.requested path queue).wrote rows).frontier.seen.card := by
            rw [wroteFrontier]
            exact more
          split
          · rename_i whole
            rw [wroteFrontier] at whole
            refine ih room wrote ?_
            rw [Covers,wroteFrontier]
            exact Frontier.takenCovers covers head (Or.inl whole)
          · split
            · rename_i unread
              have there : path ∈ ((c.requested path queue).wrote rows).fetched := by
                rw [wroteFetched]
                exact last
              exact ⟨_,_,rfl,wrote,fun other mem => requestedReached bounded covers head (by rwa [wroteFetched] at mem),
                fun same => absurd same (by decide),fun _ => ⟨path,there,html,page⟩,
                fun _ => ⟨path,there,html,page,Option.map_eq_none_iff.mp unread⟩⟩
            · rename_i paths found
              have listed : links docs candidate path = paths := by
                rw [links,page]
                dsimp only
                rw [found,Option.getD_some]
              refine ih ?_ (discoveredBounded wrote fun target mem => discoveredInside found mem) ?_
              · rw [Crawl.discovered,Frontier.offerSeen]
                exact room
              · rw [Covers,Crawl.discovered,wroteFrontier,← listed]
                exact Frontier.offeredCovers covers head

theorem crawlMore {fuel more : Nat} (le : fuel ≤ more) {result : Crawl × Ending} (ran : crawl docs candidate fuel c = some result) :
    crawl docs candidate more c = some result := by
  induction fuel generalizing c more with
  | zero => cases ran
  | succ fuel ih =>
    obtain ⟨more,rfl⟩ : ∃ less, more = less + 1 := ⟨more - 1,by omega⟩
    have less : fuel ≤ more := by omega
    rw [crawl] at ran ⊢
    split at ran
    · exact ran
    · split at ran
      · rename_i seen
        rw [if_pos seen]
        exact ih less ran
      · rename_i unseen
        rw [if_neg unseen]
        dsimp only at ran ⊢
        split at ran
        · exact ih less ran
        · split at ran
          · exact ran
          · split at ran
            · rename_i whole
              rw [if_pos whole]
              exact ih less ran
            · rename_i open_
              rw [if_neg open_]
              split at ran
              · exact ran
              · exact ih less ran

/-- With one turn a page and one more, a crawl has ended. -/
theorem crawlFinishes (docs : Docs) (candidate : RustdocSyncCandidateRow) (outcome : DocsRefreshOutcome) :
    ∃ final ending, (∀ fuel, docsDiscoveryMaxPages < fuel →
      crawl docs candidate fuel (Crawl.start candidate outcome) = some (final,ending)) ∧ Finished docs candidate final ending := by
  obtain ⟨final,ending,ran,finished⟩ :=
    crawlEnds docs (Nat.lt_succ_self docsDiscoveryMaxPages) (startBounded outcome) (startCovers outcome)
  exact ⟨final,ending,fun fuel enough => crawlMore enough ran,finished⟩

/-- A sync ends too, however many versions it crawls. -/
theorem syncEnds (docs : Docs) {fuel : Nat} (enough : docsDiscoveryMaxPages < fuel) (candidates : List RustdocSyncCandidateRow)
    (outcome : DocsRefreshOutcome) : (syncVersions docs fuel candidates outcome).isSome = true := by
  induction candidates generalizing outcome with
  | nil => rfl
  | cons candidate candidates ih =>
    obtain ⟨final,ending,ran,_⟩ := crawlFinishes docs candidate outcome
    rw [syncVersions,ran fuel enough]
    cases ending with
    | done => exact ih _
    | failed error => rfl
    | panicked => rfl

theorem fetchedFew (bounded : Bounded candidate c) : c.fetched.length ≤ docsDiscoveryMaxPages := by
  have whole : c.fetched.toFinset = c.frontier.seen := by
    ext path
    rw [List.mem_toFinset,bounded.same]
  rw [← List.toFinset_card_of_nodup bounded.once,whole]
  exact (Nat.le_add_right _ _).trans bounded.sound.fits

end

/-! Where docs.rs serves a crate. -/

def moduleName (crateName : Text) : Text := crateName.map fun c => if c = '-' then '_' else c

section
variable (docs : Docs) (candidate : RustdocSyncCandidateRow)

def rootPage : Text := cratePrefix candidate ++ moduleName candidate.crateName ++ "/".toList

/-- What is relied on of docs.rs. -/
structure Serves : Prop where
  /-- nothing is under the name of the crate where its module has another one -/
  elsewhere : moduleName candidate.crateName ≠ candidate.crateName → ∀ path, moduleRoot candidate <+: path →
    ∃ e, docs.fetchPageHtml path = .error e
  /-- the root page is what its directory and the `index.html` in it show -/
  index : ∀ html html', docs.fetchPageHtml (rootPage candidate) = .ok html →
    docs.fetchPageHtml (rootPage candidate ++ "index.html".toList) = .ok html' → html = html'

/-- Fewer pages than the crawl may fetch are reachable from the root page. -/
def Few : Prop := ∃ pages : Finset Text, pages.card < docsDiscoveryMaxPages ∧
  ∀ page, Leads (links docs candidate) (rootPage candidate) page → page ∈ pages

/-- No page of the crate makes the reading of its links panic. -/
def Readable : Prop := ∀ path html, cratePrefix candidate <+: path → docs.fetchPageHtml path = .ok html →
  (extractHrefValues html).isSome = true

/-- The crawl ends, in bounds, and small crates are fetched whole unless the database fails. -/
def CrawlsAll (outcome : DocsRefreshOutcome) : Prop :=
  ∃ final ending, (∀ fuel, docsDiscoveryMaxPages < fuel →
      crawl docs candidate fuel (Crawl.start candidate outcome) = some (final,ending)) ∧
    ending ≠ .panicked ∧ final.fetched.length ≤ docsDiscoveryMaxPages ∧ final.fetched.Nodup ∧
    (∀ path ∈ final.fetched, cratePrefix candidate <+: path) ∧
    (ending = .done → Few docs candidate → ∀ page, Leads (links docs candidate) (rootPage candidate) page → page ∈ final.fetched)

end

section
variable {docs : Docs} {candidate : RustdocSyncCandidateRow}

theorem moduleSame {crateName : Text} : moduleName crateName = crateName ↔ '-' ∉ crateName := by
  constructor
  · intro same mem
    rw [← same] at mem
    obtain ⟨c,_,mapped⟩ := List.mem_map.mp mem
    split at mapped
    · exact absurd mapped (by decide)
    · rename_i other
      exact other mapped
  · intro absent
    refine (List.map_congr_left fun c mem => ?_).trans (List.map_id crateName)
    exact if_neg fun same : c = '-' => absent (same ▸ mem)

theorem baseDirIndex (root : Text) : baseDir (root ++ "/".toList ++ "index.html".toList) = baseDir (root ++ "/".toList) := by
  simp [baseDir,List.rdropWhile]

/-- Both paths of the root page link to the same pages. -/
theorem indexLinks {html : Text} (page : docs.fetchPageHtml (rootPage candidate) = .ok html)
    (index : docs.fetchPageHtml (rootPage candidate ++ "index.html".toList) = .ok html) :
    links docs candidate (rootPage candidate ++ "index.html".toList) = links docs candidate (rootPage candidate) := by
  have alike (href : Text) :
      resolveDocsHref docs.baseUrl (rootPage candidate ++ "index.html".toList) href (cratePrefix candidate) =
        resolveDocsHref docs.baseUrl (rootPage candidate) href (cratePrefix candidate) := by
    simp only [resolveDocsHref,candidatePath,rootPage,baseDirIndex]
  rw [links,links,page,index]
  simp only [discoverDocsPaths,alike]

theorem deadEnd {x y : Text} (none_ : links docs candidate x = []) (leads : Leads (links docs candidate) x y) : y = x := by
  rcases Relation.ReflTransGen.cases_head leads with same | ⟨z,step,_⟩
  · exact same.symm
  · rw [none_] at step
    contradiction

theorem rootElsewhere (hyphen : '-' ∈ candidate.crateName) : rootPage candidate ∉ starts candidate := by
  intro mem
  simp only [starts,List.mem_cons,List.not_mem_nil,or_false] at mem
  rcases mem with same | same
  · rw [rootPage,moduleRoot] at same
    exact moduleSame.mp (List.append_cancel_left (List.append_cancel_right same)) hyphen
  · have last := congrArg List.getLast? same
    simp [rootPage,moduleRootIndex] at last

/-- A crate whose module has another name is asked for where docs.rs has nothing. -/
theorem hyphenMisses (serves : Serves docs candidate) (hyphen : '-' ∈ candidate.crateName) (few : Few docs candidate)
    (outcome : DocsRefreshOutcome) : ¬ CrawlsAll docs candidate outcome := by
  rintro ⟨final,ending,ran,_,_,_,_,all⟩
  obtain ⟨final',ending',ran',finished⟩ := crawlFinishes docs candidate outcome
  cases Option.some.inj ((ran _ (Nat.lt_succ_self _)).symm.trans (ran' _ (Nat.lt_succ_self _)))
  have missing (path : Text) (mem : path ∈ starts candidate) : ∃ e, docs.fetchPageHtml path = .error e := by
    refine serves.elsewhere (fun same => moduleSame.mp same hyphen) path ?_
    simp only [starts,List.mem_cons,List.not_mem_nil,or_false] at mem
    rcases mem with rfl | rfl
    · exact List.prefix_rfl
    · exact List.prefix_append _ _
  have only (path : Text) (mem : path ∈ final.fetched) : path ∈ starts candidate := by
    obtain ⟨root,start,leads⟩ := finished.reached path mem
    obtain ⟨e,error⟩ := missing root start
    have none_ : links docs candidate root = [] := by rw [links,error]
    exact deadEnd none_ leads ▸ start
  have done_ : ending = .done := by
    by_contra other
    obtain ⟨path,mem,html,page⟩ := finished.served other
    obtain ⟨e,error⟩ := missing path (only path mem)
    cases error.symm.trans page
  exact rootElsewhere hyphen (only _ (all done_ few _ .refl))

/-- The other path of the root page adds at most itself. -/
theorem indexAdds (serves : Serves docs candidate) {html : Text} (page : docs.fetchPageHtml (rootPage candidate) = .ok html)
    {y : Text} (leads : Leads (links docs candidate) (rootPage candidate ++ "index.html".toList) y) :
    y = rootPage candidate ++ "index.html".toList ∨ Leads (links docs candidate) (rootPage candidate) y := by
  cases index : docs.fetchPageHtml (rootPage candidate ++ "index.html".toList) with
  | error e =>
    have none_ : links docs candidate (rootPage candidate ++ "index.html".toList) = [] := by rw [links,index]
    exact Or.inl (deadEnd none_ leads)
  | ok html' =>
    cases serves.index html html' page index
    rcases Relation.ReflTransGen.cases_head leads with same | ⟨z,step,rest⟩
    · exact Or.inl same.symm
    · rw [indexLinks page index] at step
      exact Or.inr (.head step rest)

theorem wholeFetched (serves : Serves docs candidate) (plain : '-' ∉ candidate.crateName) (few : Few docs candidate) {c : Crawl}
    (bounded : Bounded candidate c) (covers : Covers docs candidate c) (empty : c.frontier.queue = []) {page : Text}
    (leads : Leads (links docs candidate) (rootPage candidate) page) : page ∈ c.fetched := by
  have named : moduleRoot candidate = rootPage candidate := by rw [moduleRoot,rootPage,moduleSame.mpr plain]
  have first : rootPage candidate ∈ starts candidate := named ▸ List.mem_cons_self
  rw [bounded.same]
  cases root : docs.fetchPageHtml (rootPage candidate) with
  | error e =>
    have none_ : links docs candidate (rootPage candidate) = [] := by rw [links,root]
    rw [deadEnd none_ leads]
    exact Frontier.emptySeen covers.sound empty (covers.rooted _ first)
  | ok html =>
    obtain ⟨pages,fewer,all⟩ := few
    have room : (insert (rootPage candidate ++ "index.html".toList) pages).card ≤ docsDiscoveryMaxPages :=
      (Finset.card_insert_le _ _).trans fewer
    refine Frontier.coversAll covers empty room (fun start mem y from_ => Finset.mem_insert.mpr ?_) first leads
    simp only [starts,moduleRootIndex,named,List.mem_cons,List.not_mem_nil,or_false] at mem
    rcases mem with rfl | rfl
    · exact Or.inr (all y from_)
    · exact (indexAdds serves root from_).imp_right (all y)

theorem plainCrawls (serves : Serves docs candidate) (readable : Readable docs candidate)
    (plain : '-' ∉ candidate.crateName ∨ ¬ Few docs candidate) (outcome : DocsRefreshOutcome) :
    CrawlsAll docs candidate outcome := by
  obtain ⟨final,ending,ran,finished⟩ := crawlFinishes docs candidate outcome
  have inside (path : Text) (mem : path ∈ final.fetched) : cratePrefix candidate <+: path :=
    finished.bounded.inside path (Or.inl ((finished.bounded.same path).mp mem))
  refine ⟨final,ending,ran,fun panics => ?_,fetchedFew finished.bounded,finished.bounded.once,inside,fun done_ few page leads => ?_⟩
  · obtain ⟨path,mem,html,page,unread⟩ := finished.panicked panics
    have read := readable path html (inside path mem) page
    rw [unread] at read
    cases read
  · obtain ⟨empty,covers⟩ := finished.done done_
    exact wholeFetched serves (plain.resolve_right (not_not.mpr few)) few finished.bounded covers empty leads

end

/-! A docs.rs that has one page under a directory, its root page. -/

def pageUnder (directory html url : Text) : Except Text Response :=
  .ok (if startsWith directory url then ⟨true,"200 OK".toList,.ok html⟩ else ⟨false,"404 Not Found".toList,.ok []⟩)

def demoDocs (directory html : Text) : Docs where
  docsRsBaseUrl := "https://docs.rs/".toList
  get := pageUnder directory html
  upsertDocsPageIfChanged _ _ _ _ _ := .ok 1

theorem demoFetched {directory html path fetched : Text} (page : (demoDocs directory html).fetchPageHtml path = .ok fetched) :
    fetched = html := by
  have answer : (demoDocs directory html).get = pageUnder directory html := rfl
  rw [Docs.fetchPageHtml,answer,pageUnder] at page
  generalize (demoDocs directory html).url path = url at page
  by_cases opens : startsWith directory url = true
  · rw [if_pos opens] at page
    exact (Except.ok.inj page).symm
  · rw [if_neg opens] at page
    cases page

def hyphenCandidate : RustdocSyncCandidateRow := ⟨"my-crate".toList,"1.0.0".toList,1⟩

def hyphenDocs : Docs := demoDocs "https://docs.rs/my-crate/1.0.0/my_crate/".toList "<title>my_crate</title>".toList

theorem hyphenServes : Serves hyphenDocs hyphenCandidate where
  elsewhere _ path opens := by
    obtain ⟨rest,rfl⟩ := opens
    exact ⟨_,rfl⟩
  index _ _ page index := (demoFetched page).trans (demoFetched index).symm

theorem hyphenFew : Few hyphenDocs hyphenCandidate := by
  have read : extractHrefValues "<title>my_crate</title>".toList = some [] := by decide +kernel
  have page : hyphenDocs.fetchPageHtml (rootPage hyphenCandidate) = .ok "<title>my_crate</title>".toList := rfl
  have none_ : links hyphenDocs hyphenCandidate (rootPage hyphenCandidate) = [] := by
    rw [links,page]
    simp only [discoverDocsPaths,read]
    rfl
  refine ⟨{rootPage hyphenCandidate},by decide,fun other leads => ?_⟩
  rw [deadEnd none_ leads]
  exact Finset.mem_singleton_self _

def plainCandidate : RustdocSyncCandidateRow := ⟨"demo".toList,"1.0.0".toList,1⟩

def plainDocs : Docs := demoDocs "https://docs.rs/demo/1.0.0/demo/".toList "<a href=\"struct.Demo.html\">Demo</a>".toList

theorem plainName : '-' ∉ plainCandidate.crateName := by decide

theorem plainServes : Serves plainDocs plainCandidate where
  elsewhere other := absurd (moduleSame.mpr plainName) other
  index _ _ page index := (demoFetched page).trans (demoFetched index).symm

theorem plainReadable : Readable plainDocs plainCandidate := by
  intro path html _ page
  rw [demoFetched page]
  decide +kernel

end RustMcp.DocsCrawl
