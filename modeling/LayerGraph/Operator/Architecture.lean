import LayerGraph.Operator.Basic
/-!
# The operators of the architecture graph

The dataset at the root, layers that consume and produce tensors, and training criteria.
-/

namespace LayerGraph.Operator.Architecture
set_option autoImplicit false

def zero : Binary64 := .ofDecimal 0 0

def one : Binary64 := .ofDecimal 1 0

/-- A layer consumes a tensor or the images of a dataset and produces a tensor. -/
def layer (id : String) (category : Category) (label description : String) : Operator where
  id
  category
  label
  description
  inputType := some .tensor
  acceptedTypes := [.dataset, .tensor]
  outputType := some .tensor
  outputTypes := [.tensor]

/-- A parameter that is a size learned from the input. -/
def inputSize (name : String) : ParamDecl := (ParamDecl.int name 1 (some 1) none).optional

def conv (id label : String) (spatial : Nat) (callee : String) : Operator :=
  { layer id .layer label "Convolution over the spatial dimensions" with
    params :=
      [inputSize "in_channels",
       .int "out_channels" 32 (some 1) none,
       .int "kernel_size" 3 (some 1) none,
       .int "stride" 1 (some 1) none,
       .int "padding" 0 (some 0) none,
       .bool "bias" true]
    rule := .conv spatial
    callee := some callee }

/-- Pooling over two spatial dimensions; its stride is the kernel size unless it is set. -/
def pool (id label callee : String) : Operator :=
  { layer id .pooling label "Sliding-window pooling, channels preserved" with
    params :=
      [.int "kernel_size" 2 (some 1) none,
       (ParamDecl.int "stride" 2 (some 1) none).optional,
       .int "padding" 0 (some 0) none]
    rule := .pool 2
    callee := some callee }

/-- A batch normalization for inputs of the given ranks. -/
def batchNorm (id label description : String) (ranks : List Nat) (callee : String) : Operator :=
  { layer id .normalization label description with
    params :=
      [inputSize "num_features",
       .float "eps" (.ofDecimal 1 (-5)) (some zero) none,
       .float "momentum" (.ofDecimal 1 (-1)) (some zero) (some one)]
    rule := .batchNorm ranks
    callee := some callee }

def activation (id label callee : String) (params : List ParamDecl) : Operator :=
  { layer id .activation label "Element-wise activation" with params, callee := some callee }

def reduction : ParamDecl := .choice "reduction" "mean" ["mean", "sum", "none"]

/-- A training criterion consumes a tensor and produces a loss. -/
def loss (id label callee : String) (params : List ParamDecl) : Operator where
  id
  category := .loss
  label
  description := "Training criterion"
  params
  inputType := some .tensor
  outputType := some .loss
  outputTypes := [.loss]
  rule := .scalar
  callee := some callee

def dataset : Operator where
  id := "dataset"
  category := .input
  label := "Dataset"
  description := "Graph root; its output is the batch of input images"
  params := [.choice "dataset" "MNIST" ["MNIST", "FashionMNIST", "CIFAR10", "CIFAR100", "ImageNet"]]
  outputType := some .dataset
  outputTypes := [.dataset]
  rule := .dataset

/-- All operators of the architecture, in the order of the palette. -/
def all : List Operator :=
  [dataset,
   { layer "linear" .layer "Linear" "Fully connected layer over the last dimension" with
     params :=
       [inputSize "in_features", .int "out_features" 10 (some 1) none, .bool "bias" true]
     rule := .linear
     callee := some "nn.Linear" },
   conv "conv1d" "Conv1d" 1 "nn.Conv1d",
   conv "conv2d" "Conv2d" 2 "nn.Conv2d",
   pool "maxpool2d" "MaxPool2d" "nn.MaxPool2d",
   pool "avgpool2d" "AvgPool2d" "nn.AvgPool2d",
   { layer "adaptiveavgpool2d" .pooling "AdaptiveAvgPool2d"
       "Pools to a fixed square spatial size" with
     params := [.int "output_size" 1 (some 1) none]
     rule := .adaptivePool
     callee := some "nn.AdaptiveAvgPool2d" },
   batchNorm "batchnorm1d" "BatchNorm1d" "Batch normalization over [B, C] or [B, C, L]" [2, 3]
     "nn.BatchNorm1d",
   batchNorm "batchnorm2d" "BatchNorm2d" "Batch normalization over [B, C, H, W]" [4]
     "nn.BatchNorm2d",
   { layer "layernorm" .normalization "LayerNorm" "Normalizes over the last dimension" with
     params :=
       [inputSize "normalized_shape", .float "eps" (.ofDecimal 1 (-5)) (some zero) none]
     rule := .layerNorm
     callee := some "nn.LayerNorm" },
   { layer "dropout" .regularization "Dropout" "Randomly zeroes activations while training" with
     params := [.float "p" (.ofDecimal 5 (-1)) (some zero) (some one)]
     callee := some "nn.Dropout" },
   activation "relu" "ReLU" "nn.ReLU" [],
   activation "sigmoid" "Sigmoid" "nn.Sigmoid" [],
   activation "tanh" "Tanh" "nn.Tanh" [],
   activation "gelu" "GELU" "nn.GELU" [],
   activation "leakyrelu" "LeakyReLU" "nn.LeakyReLU"
     [.float "negative_slope" (.ofDecimal 1 (-2)) (some zero) none],
   activation "softmax" "Softmax" "nn.Softmax" [.int "dim" 1 none none],
   { layer "flatten" .utility "Flatten" "Collapses all dimensions from start_dim onward" with
     params := [.int "start_dim" 1 (some 1) none]
     rule := .flatten
     callee := some "torch.flatten" },
   { layer "add" .merge "Add" "Element-wise sum of two or more equally shaped branches" with
     rule := .add },
   { layer "concat" .merge "Concatenate" "Joins two or more branches along one dimension" with
     params := [.int "dim" 1 none none]
     rule := .concat
     callee := some "torch.cat" },
   { layer "residualblock" .block "Residual Block"
       "Two 3x3 convolutions with batch norm and an identity or projection shortcut" with
     params :=
       [inputSize "in_channels",
        .int "out_channels" 64 (some 1) none,
        .int "stride" 1 (some 1) none]
     rule := .block .residual
     callee := some Block.residual.className },
   { layer "inceptionblock" .block "Inception Block"
       "Parallel 1x1, 3x3, 5x5 and pooling branches concatenated on channels" with
     params :=
       [inputSize "in_channels",
        .int "out_1x1" 64 (some 1) none,
        .int "out_3x3" 128 (some 1) none,
        .int "out_5x5" 32 (some 1) none,
        .int "pool_proj" 32 (some 1) none]
     rule := .block .inception
     callee := some Block.inception.className },
   loss "crossentropyloss" "CrossEntropyLoss" "nn.CrossEntropyLoss"
     [reduction, .float "label_smoothing" zero (some zero) (some one)],
   loss "nllloss" "NLLLoss" "nn.NLLLoss" [reduction],
   loss "mseloss" "MSELoss" "nn.MSELoss" [reduction],
   loss "l1loss" "L1Loss" "nn.L1Loss" [reduction],
   loss "bceloss" "BCELoss" "nn.BCELoss" [reduction],
   loss "bcewithlogitsloss" "BCEWithLogitsLoss" "nn.BCEWithLogitsLoss" [reduction]]

end LayerGraph.Operator.Architecture
