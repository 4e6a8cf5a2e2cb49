import WeightTables.Export.Build
import WeightTables.Proofs.Export.Refinement
import WeightTables.Registry
import WeightTables.Session
import WeightTables.Proofs.Stream
import WeightTables.Proofs.Table.Bytes
import WeightTables.Proofs.Table.Dump
import WeightTables.Proofs.Export.ArrayReading
import WeightTables.Proofs.Export.Build
import WeightTables.Proofs.Weight.Reading
import WeightTables.Proofs.Weight.Shortest
import WeightTables.Proofs.Numeral.Significant
import WeightTables.Proofs.Table.Filling
import WeightTables.Proofs.Weight.ShortestLiteral
import WeightTables.Proofs.Numeral.Printed
import WeightTables.Proofs.Weight.Fixed
import WeightTables.Proofs.Weight.Order
import WeightTables.Proofs.Table.SummaryLine
import WeightTables.Proofs.Table.Extremes
import WeightTables.Proofs.Table.SummaryNumbers
import WeightTables.Proofs.Text.Cut
import WeightTables.Proofs.Weight.Accepted
import WeightTables.Proofs.Export.Rows
import WeightTables.Proofs.Text.Encoding
import WeightTables.Proofs.Table.Joined
import WeightTables.Proofs.Table.NumericBounds
import WeightTables.Proofs.LoadError
import WeightTables.Proofs.Loading.Progress
import WeightTables.Proofs.Query
import WeightTables.Proofs.Registry
import WeightTables.Proofs.Session
